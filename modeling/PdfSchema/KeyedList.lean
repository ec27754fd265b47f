namespace PdfSchema

namespace Pairs

variable {α β : Type} [DecidableEq α]

def keys (ps : List (α × β)) : List α := ps.map Prod.fst

def get? (ps : List (α × β)) (k : α) : Option β :=
  (ps.find? fun p => p.1 = k).map Prod.snd

def put (ps : List (α × β)) (k : α) (v : β) : List (α × β) :=
  match ps with
  | [] => [(k, v)]
  | p :: ps => if p.1 = k then (k, v) :: ps else p :: put ps k v

/-- The pairs put one after the other into an empty list: the last value of a key counts, at the
place of the first. -/
def ofList (ps : List (α × β)) : List (α × β) := ps.foldl (fun out p => put out p.1 p.2) []

/-- Items gathered under their keys, the keys in the order in which they first come. What stands
under a key is `init` at first and takes up the items with the key one after the other. -/
def gather {γ : Type} (key : γ → α) (init : β) (add : β → γ → β) (xs : List γ) : List (α × β) :=
  xs.foldl (fun out x => put out (key x) (add ((get? out (key x)).getD init) x)) []

theorem put_nil (k : α) (v : β) : put [] k v = [(k, v)] := rfl

theorem put_cons (p : α × β) (ps : List (α × β)) (k : α) (v : β) :
    put (p :: ps) k v = if p.1 = k then (k, v) :: ps else p :: put ps k v := rfl

theorem keys_put (ps : List (α × β)) (k : α) (v : β) :
    keys (put ps k v) = if k ∈ keys ps then keys ps else keys ps ++ [k] := by
  induction ps with
  | nil => simp [put_nil, keys]
  | cons p ps ih =>
    by_cases h : p.1 = k
    · simp [put_cons, keys, h]
    · have h' : k ≠ p.1 := fun e => h e.symm
      simp only [keys] at ih
      simp only [put_cons, h, if_false, keys, List.map_cons, ih, List.mem_cons, h', false_or]
      by_cases hk : k ∈ List.map Prod.fst ps <;> simp [hk]

theorem put_of_notMem {ps : List (α × β)} {k : α} (h : k ∉ keys ps) (v : β) :
    put ps k v = ps ++ [(k, v)] := by
  induction ps with
  | nil => rfl
  | cons p ps ih =>
    simp only [keys, List.map_cons, List.mem_cons, not_or] at h
    rw [put_cons, if_neg fun e => h.1 e.symm, ih h.2, List.cons_append]

theorem nodup_keys_put {ps : List (α × β)} (h : (keys ps).Nodup) (k : α) (v : β) :
    (keys (put ps k v)).Nodup := by
  rw [keys_put]
  split
  · exact h
  · rename_i hk
    refine List.nodup_append.2 ⟨h, List.pairwise_singleton _ _, ?_⟩
    intro a ha b hb e
    rw [List.mem_singleton] at hb
    exact hk (hb ▸ e ▸ ha)

theorem get?_put (ps : List (α × β)) (k k' : α) (v : β) :
    get? (put ps k v) k' = if k = k' then some v else get? ps k' := by
  induction ps with
  | nil => by_cases h : k = k' <;> simp [put_nil, get?, h]
  | cons p ps ih =>
    simp only [get?] at ih
    by_cases h : p.1 = k <;> by_cases h' : k = k' <;> by_cases h'' : p.1 = k' <;>
      simp_all [put_cons, get?]

theorem get?_eq_some_iff {ps : List (α × β)} (h : (keys ps).Nodup) {k : α} {v : β} :
    get? ps k = some v ↔ (k, v) ∈ ps := by
  induction ps with
  | nil => simp [get?]
  | cons p ps ih =>
    simp only [keys, List.map_cons, List.nodup_cons] at h
    obtain ⟨hp, hps⟩ := h
    by_cases hk : p.1 = k
    · have hne : (k, v) ∉ ps := fun hm => hp (hk ▸ List.mem_map_of_mem hm)
      subst hk
      simp only [get?, List.find?_cons, decide_true, Option.map_some, List.mem_cons, hne,
        or_false, Option.some.injEq]
      exact ⟨fun e => e ▸ rfl, fun e => e ▸ rfl⟩
    · have hne : (k, v) ≠ p := fun e => hk (e ▸ rfl)
      simp only [get?, List.find?_cons, hk, decide_false, List.mem_cons, hne, false_or]
      exact ih hps

theorem mem_put {ps : List (α × β)} {k : α} {v : β} {p : α × β} (h : p ∈ put ps k v) :
    p ∈ ps ∨ p = (k, v) := by
  induction ps with
  | nil => exact .inr (List.mem_singleton.1 h)
  | cons q ps ih =>
    rw [put_cons] at h
    split at h
    · rcases List.mem_cons.1 h with h | h
      · exact .inr h
      · exact .inl (List.mem_cons_of_mem _ h)
    · rcases List.mem_cons.1 h with h | h
      · exact .inl (h ▸ List.mem_cons_self)
      · exact (ih h).imp_left (List.mem_cons_of_mem _)

end Pairs

/-- Pairs without a repeated key, in a fixed order. -/
structure KeyedList (α β : Type) [DecidableEq α] where
  pairs : List (α × β)
  nodup : (Pairs.keys pairs).Nodup

namespace KeyedList

variable {α β : Type} [DecidableEq α]

def empty : KeyedList α β := ⟨[], List.Pairwise.nil⟩

instance : Inhabited (KeyedList α β) := ⟨empty⟩

def keys (m : KeyedList α β) : List α := Pairs.keys m.pairs

def values (m : KeyedList α β) : List β := m.pairs.map Prod.snd

def get? (m : KeyedList α β) (k : α) : Option β := Pairs.get? m.pairs k

def contains (m : KeyedList α β) (k : α) : Bool := (m.get? k).isSome

def size (m : KeyedList α β) : Nat := m.pairs.length

def isEmpty (m : KeyedList α β) : Bool := m.pairs.isEmpty

def put (m : KeyedList α β) (k : α) (v : β) : KeyedList α β :=
  ⟨Pairs.put m.pairs k v, Pairs.nodup_keys_put m.nodup k v⟩

theorem get?_put (m : KeyedList α β) (k k' : α) (v : β) :
    (m.put k v).get? k' = if k = k' then some v else m.get? k' :=
  Pairs.get?_put m.pairs k k' v

theorem get?_eq_some_iff {m : KeyedList α β} {k : α} {v : β} :
    m.get? k = some v ↔ (k, v) ∈ m.pairs := Pairs.get?_eq_some_iff m.nodup

theorem mem_keys_of_get?_eq_some {m : KeyedList α β} {k : α} {v : β} (h : m.get? k = some v) :
    k ∈ m.keys := List.mem_map_of_mem (get?_eq_some_iff.1 h)

theorem exists_get?_of_mem_keys {m : KeyedList α β} {k : α} (h : k ∈ m.keys) :
    ∃ v, m.get? k = some v := by
  obtain ⟨⟨_, v⟩, hp, rfl⟩ := List.mem_map.1 h
  exact ⟨v, get?_eq_some_iff.2 hp⟩

theorem mem_put {m : KeyedList α β} {k : α} {v : β} {p : α × β} (h : p ∈ (m.put k v).pairs) :
    p ∈ m.pairs ∨ p = (k, v) := Pairs.mem_put h

end KeyedList

end PdfSchema
