import Mathlib.Data.List.Induction
import Mathlib.Data.List.Nodup
import PdfSchema.KeyedList

namespace PdfSchema

namespace Pairs

variable {α β : Type} [DecidableEq α] {ps : List (α × β)} {k : α} {v : β}

theorem get?_append (ps qs : List (α × β)) (k : α) :
    get? (ps ++ qs) k = (get? ps k).or (get? qs k) := by
  rw [get?, List.find?_append, Option.map_or]
  rfl

theorem isSome_get?_iff : (get? ps k).isSome = true ↔ k ∈ keys ps := by simp [get?, keys]

theorem get?_reverse_eq_some_iff : get? ps.reverse k = some v ↔
    ∃ before after, ps = before ++ (k, v) :: after ∧ k ∉ keys after := by
  constructor
  · intro h
    obtain ⟨p, hp, rfl⟩ := Option.map_eq_some_iff.1 h
    obtain ⟨hk, after, before, hsplit, hafter⟩ := List.find?_eq_some_iff_append.1 hp
    obtain rfl : p.1 = k := of_decide_eq_true hk
    refine ⟨before.reverse, after.reverse, ?_, ?_⟩
    · have hps := congrArg List.reverse hsplit
      simpa only [List.reverse_reverse, List.reverse_append, List.reverse_cons, List.append_assoc,
        List.singleton_append] using hps
    · intro hmem
      obtain ⟨q, hq, hkey⟩ := List.mem_map.1 hmem
      have hne := hafter q (List.mem_reverse.1 hq)
      simp [hkey] at hne
  · rintro ⟨before, after, rfl, hafter⟩
    refine Option.map_eq_some_iff.2 ⟨(k, v), List.find?_eq_some_iff_append.2 ?_, rfl⟩
    refine ⟨decide_eq_true rfl, after.reverse, before.reverse, by simp, ?_⟩
    intro q hq
    have hne : q.1 ≠ k := by
      rintro rfl
      exact hafter (List.mem_map_of_mem (List.mem_reverse.1 hq))
    simp [hne]

omit [DecidableEq α] in
theorem flatMap_eq_of_mem {γ : Type} (hps : (keys ps).Nodup) (h : (k, v) ∈ ps)
    {g : α × β → List γ} (hg : ∀ p ∈ ps, p.1 ≠ k → g p = []) : ps.flatMap g = g (k, v) := by
  obtain ⟨before, after, rfl⟩ := List.append_of_mem h
  rw [keys, List.map_append, List.map_cons, List.nodup_middle, List.nodup_cons,
    ← List.map_append] at hps
  have hnil : ∀ p ∈ before ++ after, g p = [] := by
    intro p hp
    refine hg p (by grind) ?_
    rintro rfl
    exact hps.1 (List.mem_map.2 ⟨p, hp, rfl⟩)
  obtain ⟨hbefore, hafter⟩ := List.forall_mem_append.1 hnil
  rw [List.flatMap_append, List.flatMap_cons, List.flatMap_eq_nil_iff.2 hbefore,
    List.flatMap_eq_nil_iff.2 hafter, List.nil_append, List.append_nil]

end Pairs

namespace KeyedList

variable {α β γ : Type} [DecidableEq α] {m m' : KeyedList α β} {ps : List (α × β)} {k : α} {v : β}

theorem get?_eq_none_iff : m.get? k = none ↔ k ∉ m.keys := by
  constructor
  · intro h hk
    obtain ⟨v, hv⟩ := exists_get?_of_mem_keys hk
    cases h.symm.trans hv
  · intro hk
    cases h : m.get? k with
    | none => rfl
    | some v => exact absurd (mem_keys_of_get?_eq_some h) hk

theorem keys_put (m : KeyedList α β) (k : α) (v : β) :
    (m.put k v).keys = if k ∈ m.keys then m.keys else m.keys ++ [k] := Pairs.keys_put m.pairs k v

theorem pairs_eq_filterMap (m : KeyedList α β) :
    m.pairs = m.keys.filterMap fun k ↦ (m.get? k).map fun v ↦ (k, v) := by
  have hpair : ∀ p ∈ m.pairs, ((m.get? p.1).map fun v ↦ (p.1, v)) = some p := by
    intro p hp
    rw [get?_eq_some_iff.2 hp]
    rfl
  rw [keys, Pairs.keys, List.filterMap_map]
  generalize m.pairs = ps at hpair
  induction ps with
  | nil => rfl
  | cons p ps ih =>
    obtain ⟨hp, hps⟩ := List.forall_mem_cons.1 hpair
    rw [List.filterMap_cons_some (by exact hp), ← ih hps]

theorem eq_of_get?_eq (hkeys : m.keys = m'.keys) (hget : ∀ k, m.get? k = m'.get? k) : m = m' := by
  have h : m.pairs = m'.pairs := by
    simp only [pairs_eq_filterMap m, pairs_eq_filterMap m', hkeys, hget]
  cases m
  cases m'
  cases h
  rfl

theorem get?_eq_of_perm (h : m.pairs.Perm m'.pairs) (k : α) : m.get? k = m'.get? k := by
  ext v
  rw [get?_eq_some_iff, get?_eq_some_iff, h.mem_iff]

def putAll (m : KeyedList α β) (ps : List (α × β)) : KeyedList α β :=
  ps.foldl (fun m p ↦ m.put p.1 p.2) m

theorem putAll_snoc (m : KeyedList α β) (ps : List (α × β)) (p : α × β) :
    m.putAll (ps ++ [p]) = (m.putAll ps).put p.1 p.2 := List.foldl_append

theorem putAll_append (m : KeyedList α β) (ps qs : List (α × β)) :
    m.putAll (ps ++ qs) = (m.putAll ps).putAll qs := List.foldl_append

theorem eraseDups_concat (ks : List α) (k : α) :
    (ks ++ [k]).eraseDups = ks.eraseDups ++ if k ∈ ks then [] else [k] := by
  rw [List.eraseDups_append]
  split <;> simp [List.removeAll, List.eraseDups_cons, *]

theorem keys_putAll (ps : List (α × β)) :
    (empty.putAll ps).keys = (Pairs.keys ps).eraseDups := by
  induction ps using List.reverseRecOn with
  | nil => rfl
  | append_singleton ps p ih =>
    have hkeys : Pairs.keys (ps ++ [p]) = Pairs.keys ps ++ [p.1] := List.map_append
    rw [putAll_snoc, keys_put, hkeys, eraseDups_concat, ih]
    simp only [List.mem_eraseDups]
    split <;> simp

theorem get?_putAll (ps : List (α × β)) (k : α) :
    (empty.putAll ps).get? k = Pairs.get? ps.reverse k := by
  induction ps using List.reverseRecOn with
  | nil => rfl
  | append_singleton ps p ih =>
    rw [putAll_snoc, get?_put, List.reverse_append, ih]
    by_cases hp : p.1 = k
    · simp [Pairs.get?, hp]
    · simp [Pairs.get?, hp]

theorem putAll_append_self (ps : List (α × β)) : empty.putAll (ps ++ ps) = empty.putAll ps := by
  apply eq_of_get?_eq
  · have hkeys : Pairs.keys (ps ++ ps) = Pairs.keys ps ++ Pairs.keys ps := List.map_append
    have hnone : (Pairs.keys ps).removeAll (Pairs.keys ps) = [] := by
      refine List.filter_eq_nil_iff.2 fun a ha ↦ ?_
      simp [ha]
    rw [keys_putAll, keys_putAll, hkeys, List.eraseDups_append, hnone, List.eraseDups_nil,
      List.append_nil]
  · intro k
    rw [get?_putAll, get?_putAll, List.reverse_append, Pairs.get?_append, Option.or_self]

/-- Where each pair comes from an item, the value under a key is that of the last item with it. -/
theorem get?_putAll_filterMap_eq_some_iff {f : γ → Option (α × β)} {xs : List γ} :
    (empty.putAll (xs.filterMap f)).get? k = some v ↔ ∃ before x after,
      xs = before ++ x :: after ∧ f x = some (k, v) ∧ ∀ y ∈ after, ∀ w, f y ≠ some (k, w) := by
  rw [get?_putAll, Pairs.get?_reverse_eq_some_iff]
  have hlast {after : List γ} :
      k ∉ Pairs.keys (after.filterMap f) ↔ ∀ y ∈ after, ∀ w, f y ≠ some (k, w) := by
    simp only [Pairs.keys, List.mem_map, List.mem_filterMap, Prod.exists]
    grind
  constructor
  · rintro ⟨before, after, hps, hafter⟩
    obtain ⟨xs₁, xs₂, rfl, -, hxs₂⟩ := List.filterMap_eq_append_iff.1 hps
    obtain ⟨xs₃, x, xs₄, rfl, -, hx, rfl⟩ := List.filterMap_eq_cons_iff.1 hxs₂
    exact ⟨xs₁ ++ xs₃, x, xs₄, (List.append_assoc _ _ _).symm, hx, hlast.1 hafter⟩
  · rintro ⟨before, x, after, rfl, hx, hafter⟩
    refine ⟨before.filterMap f, after.filterMap f, ?_, hlast.2 hafter⟩
    rw [List.filterMap_append, List.filterMap_cons_some hx]

end KeyedList

namespace Pairs

variable {α β γ : Type} [DecidableEq α] (key : γ → α) (init : β) (add : β → γ → β) (xs : List γ)

theorem gather_concat (x : γ) : gather key init add (xs ++ [x]) =
    put (gather key init add xs) (key x)
      (add ((get? (gather key init add xs) (key x)).getD init) x) := List.foldl_append

theorem nodup_keys_gather : (keys (gather key init add xs)).Nodup := by
  induction xs using List.reverseRecOn with
  | nil => exact List.nodup_nil
  | append_singleton xs x ih =>
    rw [gather_concat]
    exact nodup_keys_put ih _ _

/-- Under a key stands what has taken up the items with that key, in their order. -/
theorem get?_gather (k : α) : get? (gather key init add xs) k =
    if k ∈ xs.map key then some ((xs.filter fun x ↦ key x = k).foldl add init) else none := by
  induction xs using List.reverseRecOn with
  | nil => rfl
  | append_singleton xs x ih =>
    rw [gather_concat, get?_put, List.filter_append, List.foldl_append, List.map_append]
    by_cases hk : key x = k
    · subst hk
      have hvalue : (get? (gather key init add xs) (key x)).getD init =
          (xs.filter fun y ↦ key y = key x).foldl add init := by
        rw [ih]
        split
        case isTrue => rfl
        case isFalse hnew =>
          have hnil : (xs.filter fun y ↦ key y = key x) = [] := by
            refine List.filter_eq_nil_iff.2 fun y hy ↦ ?_
            simpa using fun h : key y = key x ↦ hnew (h ▸ List.mem_map_of_mem hy)
          rw [hnil]
          rfl
      simp [hvalue]
    · have hk' : k ≠ key x := fun h ↦ hk h.symm
      simp [hk, hk', ih]

theorem mem_gather_iff {k : α} {v : β} : (k, v) ∈ gather key init add xs ↔
    k ∈ xs.map key ∧ (xs.filter fun x ↦ key x = k).foldl add init = v := by
  rw [← get?_eq_some_iff (nodup_keys_gather key init add xs), get?_gather,
    Option.ite_none_right_eq_some, Option.some_inj]

end Pairs

end PdfSchema
