import PdfSchema.Proofs.Document.Encoding
import PdfSchema.Proofs.Document.Keys

namespace PdfSchema.Decoding

open PdfValue (markers)
open Json (Draft)

variable {m m' m₁ : Members} {key : String} {d : Draft} {ms rest : List (String × Draft)}
  {broken : Option Json.Break} {v w : PdfValue}

inductive Members.Takes (m : Members) : String → Draft → Members → Prop
  | reference (text : String) : Takes m "$ref" (.string text) { m with reference := some text }
  | length (n : ℕ) : Takes m "$length" (.integer n) { m with length := some n }
  | stream {d : Draft} {es : List (String × PdfValue)}
    (hd : Decoding.value d = .ok (.dictionary es)) : Takes m "$stream" d { m with stream := some es }
  | entry {key : String} {d : Draft} {v : PdfValue} (hkey : key ∉ markers)
    (hd : Decoding.value d = .ok v) : Takes m key d { m with entries := Pairs.put m.entries key v }

theorem ok_of_text {text : String} (h : Decoding.text d = .ok text) : d = .string text := by
  unfold Decoding.text at h
  split at h
  · cases h
    rfl
  · unfold wrongType at h
    split at h <;> cases h

theorem ok_of_length {n : ℕ} (h : Decoding.length d = .ok n) : d = .integer n := by
  unfold Decoding.length at h
  split at h
  · split at h
    · rename_i hn
      cases h
      rw [Int.toNat_of_nonneg hn]
    · cases h
  · unfold wrongType at h
    split at h <;> cases h

theorem takes_of_members_cons (h : members m ((key, d) :: rest) = .ok m') :
    ∃ m₁, m.Takes key d m₁ ∧ members m₁ rest = .ok m' := by
  by_cases hr : key = "$ref"
  · subst hr
    rw [members, if_pos rfl] at h
    obtain ⟨text, htext, h⟩ := of_bind_eq_ok h
    obtain rfl := ok_of_text (ok_of_within htext)
    exact ⟨_, .reference text, h⟩
  by_cases hl : key = "$length"
  · subst hl
    rw [members, if_neg hr, if_pos rfl] at h
    obtain ⟨n, hn, h⟩ := of_bind_eq_ok h
    obtain rfl := ok_of_length (ok_of_within hn)
    exact ⟨_, .length n, h⟩
  rw [members, if_neg hr, if_neg hl] at h
  obtain ⟨v, hv, hread⟩ := of_bind_eq_ok h
  have hd : value d = .ok v := ok_of_within hv
  by_cases hs : key = "$stream"
  · subst hs
    rw [if_pos rfl] at hread
    split at hread
    · exact ⟨_, .stream hd, hread⟩
    · cases hread
  · rw [if_neg hs] at hread
    exact ⟨_, .entry (by simp [markers, hr, hl, hs]) hd, hread⟩

inductive Members.Holds (m : Members) : String → Draft → Prop
  | reference {text : String} (h : m.reference = some text) : Holds m "$ref" (.string text)
  | length {n : ℕ} (h : m.length = some n) : Holds m "$length" (.integer n)
  | stream {d : Draft} {es : List (String × PdfValue)}
    (hd : Decoding.value d = .ok (.dictionary es)) (h : m.stream = some es) : Holds m "$stream" d
  | entry {key : String} {d : Draft} {v : PdfValue} (hkey : key ∉ markers)
    (hd : Decoding.value d = .ok v) (h : Pairs.get? m.entries key = some v) : Holds m key d

theorem Members.Takes.holds (h : m.Takes key d m₁) : m₁.Holds key d := by
  cases h with
  | reference text => exact .reference rfl
  | length n => exact .length rfl
  | stream hd => exact .stream hd rfl
  | entry hkey hd =>
    refine .entry hkey hd ?_
    rw [Pairs.get?_put, if_pos rfl]

theorem Members.Takes.kept (h : m.Takes key d m₁) {key' : String} {d' : Draft} (hne : key' ≠ key)
    (hold : m.Holds key' d') : m₁.Holds key' d' := by
  -- Each form of member has a place of its own, which only a member with the same key writes to.
  cases hold with
  | reference hr =>
    refine .reference ?_
    cases h with
    | reference text => exact absurd rfl hne
    | length | stream | entry => exact hr
  | length hl =>
    refine .length ?_
    cases h with
    | length n => exact absurd rfl hne
    | reference | stream | entry => exact hl
  | stream hd' hs =>
    refine .stream hd' ?_
    cases h with
    | stream hd => exact absurd rfl hne
    | reference | length | entry => exact hs
  | entry hkey hd' he =>
    refine .entry hkey hd' ?_
    cases h with
    | reference | length | stream => exact he
    | entry => rw [Pairs.get?_put, if_neg hne.symm, he]

theorem holds_of_members (h : members m ms = .ok m') (hkey : key ∉ Pairs.keys ms)
    (hold : m.Holds key d) : m'.Holds key d := by
  induction ms generalizing m with
  | nil =>
    rw [members] at h
    cases h
    exact hold
  | cons x rest ih =>
    obtain ⟨m₁, hx, hrest⟩ := takes_of_members_cons h
    have hne : key ≠ x.1 := fun heq ↦ hkey (heq ▸ List.mem_cons_self)
    exact ih hrest (fun hmem ↦ hkey (List.mem_cons_of_mem _ hmem)) (hx.kept hne hold)

theorem takes_of_members {before after : List (String × Draft)}
    (h : members m (before ++ (key, d) :: after) = .ok m') :
    ∃ m₁ m₂ : Members, m₁.Takes key d m₂ ∧ members m₂ after = .ok m' := by
  induction before generalizing m with
  | nil =>
    obtain ⟨m₁, hd, hafter⟩ := takes_of_members_cons h
    exact ⟨m, m₁, hd, hafter⟩
  | cons x before ih =>
    obtain ⟨m₁, _, hrest⟩ := takes_of_members_cons h
    exact ih hrest

/-- Whether the value of an object has what one of its members says. -/
inductive KeptIn : PdfValue → String → Draft → Prop
  | reference {text : String} {id : ObjectId} (h : ObjectId.parse? text = some id) :
    KeptIn (.reference id) "$ref" (.string text)
  | length {es : List (String × PdfValue)} {n : ℕ} :
    KeptIn (.stream es n) "$length" (.integer n)
  | stream {es : List (String × PdfValue)} {n : ℕ} {d : Draft}
    (hd : value d = .ok (.dictionary es)) : KeptIn (.stream es n) "$stream" d
  | entry {es : List (String × PdfValue)} {key : String} {d : Draft} {v : PdfValue}
    (hkey : key ∉ markers) (hd : value d = .ok v) (h : Pairs.get? es key = some v) :
    KeptIn (.dictionary es) key d

theorem value_members_cases (h : m.value = .ok w) :
    (∃ text id, m.reference = some text ∧ m.stream = none ∧ m.entries = [] ∧
      ObjectId.parse? text = some id ∧ w = .reference id) ∨
    (∃ es, m.reference = none ∧ m.stream = some es ∧ m.entries = [] ∧
      w = .stream es (m.length.getD 0)) ∨
    m.reference = none ∧ m.stream = none ∧ w = .dictionary m.entries := by
  unfold Members.value at h
  split at h
  · rename_i text hreference hstream
    split at h
    · rename_i hempty
      split at h
      · rename_i id hid
        cases h
        exact .inl ⟨text, id, hreference, hstream, List.isEmpty_iff.1 hempty, hid, rfl⟩
      · cases h
    · cases h
  · cases h
  · rename_i es hreference hstream
    split at h
    · rename_i hempty
      cases h
      exact .inr (.inl ⟨es, hreference, hstream, List.isEmpty_iff.1 hempty, rfl⟩)
    · cases h
  · rename_i hreference hstream
    cases h
    exact .inr (.inr ⟨hreference, hstream, rfl⟩)

theorem Members.Holds.keptIn (h : m.Holds key d) (hv : m.value = .ok w)
    (hlength : key = "$length" → m.stream.isSome = true) : KeptIn w key d := by
  rcases value_members_cases hv with ⟨text, id, hr, hs, he, hid, rfl⟩ | ⟨es, hr, hs, he, rfl⟩ |
    ⟨hr, hs, rfl⟩
  · cases h with
    | reference h =>
      rw [hr] at h
      cases h
      exact .reference hid
    | length h => simp [hs] at hlength
    | stream hd h => simp [hs] at h
    | entry hkey hd h => simp [he, Pairs.get?] at h
  · cases h with
    | reference h => simp [hr] at h
    | length h =>
      rw [h]
      exact .length
    | stream hd h =>
      rw [hs] at h
      cases h
      exact .stream hd
    | entry hkey hd h => simp [he, Pairs.get?] at h
  · cases h with
    | reference h => simp [hr] at h
    | length h => simp [hs] at hlength
    | stream hd h => simp [hs] at h
    | entry hkey hd h => exact .entry hkey hd h

theorem Members.Holds.isSome_stream (h : m.Holds key d) (hkey : key = "$stream") :
    m.stream.isSome = true := by
  cases h with
  | reference | length => simp at hkey
  | stream hd hs => rw [hs, Option.isSome_some]
  | entry hmarker => simp [hkey, markers] at hmarker

theorem exists_last {α : Type} {ps : List (String × α)} (h : key ∈ Pairs.keys ps) :
    ∃ before x after, ps = before ++ (key, x) :: after ∧ key ∉ Pairs.keys after := by
  induction ps with
  | nil => cases h
  | cons p ps ih =>
    by_cases hps : key ∈ Pairs.keys ps
    · obtain ⟨before, x, after, rfl, hafter⟩ := ih hps
      exact ⟨p :: before, x, after, rfl, hafter⟩
    · obtain rfl : key = p.1 := (List.mem_cons.1 h).resolve_right hps
      exact ⟨[], p.2, ps, rfl, hps⟩

/-- The last member with a key is kept, unless it is a length and there is no stream. -/
theorem keptIn_of_last (h : value (.object ms broken) = .ok w)
    {before after : List (String × Draft)} (hms : ms = before ++ (key, d) :: after)
    (hlast : key ∉ Pairs.keys after) (hlength : key = "$length" → "$stream" ∈ Pairs.keys ms) :
    KeptIn w key d := by
  rw [value] at h
  obtain ⟨m, hm, h⟩ := of_bind_eq_ok h
  obtain ⟨m', hm', h⟩ := of_bind_eq_ok h
  obtain rfl := eq_of_checkBreak hm'
  have hholds {key : String} {d : Draft} {before after : List (String × Draft)}
      (hms : ms = before ++ (key, d) :: after) (hlast : key ∉ Pairs.keys after) :
      m.Holds key d := by
    rw [hms] at hm
    obtain ⟨m₁, m₂, hd, hafter⟩ := takes_of_members hm
    exact holds_of_members hafter hlast hd.holds
  -- There is a stream in the end, since the last member that is one stays.
  refine (hholds hms hlast).keptIn h fun hkey ↦ ?_
  obtain ⟨before', x, after', hms', hlast'⟩ := exists_last (hlength hkey)
  exact (hholds hms' hlast').isSome_stream rfl

theorem KeptIn.eq_reference (h : KeptIn w key d) (hkey : key = "$ref") :
    ∃ id, w = .reference id := by
  cases h with
  | reference => exact ⟨_, rfl⟩
  | length | stream => simp at hkey
  | entry hmarker => simp [hkey, markers] at hmarker

theorem KeptIn.eq_ref {id : ObjectId} (h : KeptIn (.reference id) key d) : key = "$ref" := by
  cases h
  rfl

inductive Inside (x : Draft) : Draft → Prop
  | self : Inside x x
  | item {y : Draft} {ds : List Draft} {broken : Option Json.Fault} (hy : y ∈ ds)
    (hx : Inside x y) : Inside x (.array ds broken)
  | member {key : String} {y : Draft} {ms : List (String × Draft)} {broken : Option Json.Break}
    (hy : (key, y) ∈ ms) (hx : Inside x y) : Inside x (.object ms broken)

theorem exists_value_of_mem {ds : List Draft} {n : ℕ} {vs : List PdfValue}
    (h : values n ds = .ok vs) (hd : d ∈ ds) : ∃ v, value d = .ok v := by
  induction ds generalizing n vs with
  | nil => cases hd
  | cons x ds ih =>
    rw [values] at h
    obtain ⟨v, hv, h⟩ := of_bind_eq_ok h
    obtain ⟨ws, hws, h⟩ := of_bind_eq_ok h
    rcases List.mem_cons.1 hd with rfl | hd
    · exact ⟨v, ok_of_within hv⟩
    · exact ih hws hd

theorem exists_value_of_inside (hinside : Inside (.object ms broken) d) (h : value d = .ok v) :
    ∃ w, value (.object ms broken) = .ok w := by
  induction hinside generalizing v with
  | self => exact ⟨v, h⟩
  | item hy hx ih =>
    rw [value] at h
    obtain ⟨items, hitems, _⟩ := of_bind_eq_ok h
    obtain ⟨w, hw⟩ := exists_value_of_mem hitems hy
    exact ih hw
  | member hy hx ih =>
    rw [value] at h
    obtain ⟨m, hm, _⟩ := of_bind_eq_ok h
    obtain ⟨before, after, rfl⟩ := List.append_of_mem hy
    obtain ⟨_, _, htakes, _⟩ := takes_of_members hm
    cases htakes with
    | reference | length => cases hx
    | stream hd => exact ih hd
    | entry _ hd => exact ih hd

/-- Decoding an object at any depth fails if it has a reference and a member that is neither one nor
a length. Where it does not fail, each object is decoded and keeps its members, but for a length
without a stream and for members that are written again later on. -/
theorem object_keeps_members (hinside : Inside (.object ms broken) d) :
    ("$ref" ∈ Pairs.keys ms → (∃ key ∈ Pairs.keys ms, key ≠ "$ref" ∧ key ≠ "$length") →
      ∃ e, value d = .error e) ∧
    ∀ v, value d = .ok v → ∃ w, value (.object ms broken) = .ok w ∧
      ∀ before key m after, ms = before ++ (key, m) :: after → key ∉ Pairs.keys after →
        (key = "$length" → "$stream" ∈ Pairs.keys ms) → KeptIn w key m := by
  constructor
  case right =>
    intro v hv
    obtain ⟨w, hw⟩ := exists_value_of_inside hinside hv
    exact ⟨w, hw, fun before key m after hms ↦ keptIn_of_last hw hms⟩
  case left =>
    rintro hreference ⟨key, hkey, hr, hl⟩
    cases hv : value d with
    | error e => exact ⟨e, rfl⟩
    | ok v =>
      obtain ⟨w, hw⟩ := exists_value_of_inside hinside hv
      obtain ⟨_, _, _, hms, hlast⟩ := exists_last hreference
      obtain ⟨_, _, _, hms', hlast'⟩ := exists_last hkey
      have href := keptIn_of_last hw hms hlast fun heq ↦ absurd heq (by decide)
      have hkept := keptIn_of_last hw hms' hlast' fun heq ↦ absurd heq hl
      obtain ⟨id, rfl⟩ := href.eq_reference rfl
      exact absurd hkept.eq_ref hr

def lengthyMembers : List (String × Draft) :=
  [("$length", .integer 3), ("$stream", .object [("A", .null)] none)]

def mixedDraft : Draft :=
  .array [.object [("A", .null), ("$ref", .string "1 0")] none,
    .object lengthyMembers none] none

theorem mixedDraft_keeps_members :
    (∃ e, value mixedDraft = .error e) ∧
    ∃ w, value (.object lengthyMembers none) = .ok w ∧ KeptIn w "$length" (.integer 3) := by
  constructor
  · have hreference : Inside (.object [("A", .null), ("$ref", .string "1 0")] none) mixedDraft :=
      .item List.mem_cons_self .self
    exact (object_keeps_members hreference).1 (by decide) ⟨"A", by decide, by decide, by decide⟩
  · have hstream : value (.object lengthyMembers none) = .ok (.stream [("A", .null)] 3) := rfl
    obtain ⟨w, hw, hkept⟩ := (object_keeps_members .self).2 _ hstream
    exact ⟨w, hw, hkept [] "$length" (.integer 3) [_] rfl (by decide) (by decide)⟩

def measuredReference : List (String × Draft) :=
  [("$ref", .string "1 0"), ("$length", .integer 5)]

/-- The length beside a reference is lost. -/
theorem measuredReference_decoded :
    value (.object measuredReference none) = .ok (.reference ⟨1, 0⟩) ∧
    ¬ ∀ ms broken d, Inside (.object ms broken) d → "$ref" ∈ Pairs.keys ms →
      (∃ key ∈ Pairs.keys ms, key ≠ "$ref") → ∃ e, value d = .error e := by
  have hvalue : value (.object measuredReference none) = .ok (.reference ⟨1, 0⟩) := rfl
  refine ⟨hvalue, fun hall ↦ ?_⟩
  obtain ⟨e, he⟩ := hall measuredReference none _ .self (by decide)
    ⟨"$length", by decide, by decide⟩
  cases he.symm.trans hvalue

end PdfSchema.Decoding
