import Mathlib.Data.List.Nodup
import PdfSchema.Export
import PdfSchema.Proofs.Json.Reordering

namespace PdfSchema

open Json

section

variable {α : Type} {R : α → α → Prop} {f : α → Json} {as bs : List α} {o o' : Option α}
  {es es' : Option (List (Option α))} {ps qs : List (String × α)}

theorem forall₂_of_listedEntries (h : Reordered (listedEntries f as) (listedEntries f bs))
    (hf : ∀ a ∈ as, ∀ b ∈ bs, Reordered (f a) (f b) → R a b) : List.Forall₂ R as bs := by
  rw [listedEntries, listedEntries, reordered_array_iff, List.forall₂_map_left_iff,
    List.forall₂_map_right_iff] at h
  exact forall₂_imp_of_mem h hf

theorem rel_of_orNull (h : Reordered (orNull f o) (orNull f o')) (hnull : ∀ a, f a ≠ .null)
    (hf : ∀ a ∈ o, ∀ b ∈ o', Reordered (f a) (f b) → R a b) : Option.Rel R o o' := by
  cases o with
  | none =>
    cases o' with
    | none => exact .none
    | some b => exact absurd h.eq_null_left (hnull b)
  | some a =>
    cases o' with
    | none => exact absurd h.eq_null_right (hnull a)
    | some b => exact .some (hf a rfl b rfl h)

def presentEntries (es : Option (List (Option α))) : List α := (es.getD []).filterMap id

theorem rel_of_optionalEntries (h : Reordered (optionalEntries f es) (optionalEntries f es'))
    (hnull : ∀ a, f a ≠ .null)
    (hf : ∀ a ∈ presentEntries es, ∀ b ∈ presentEntries es', Reordered (f a) (f b) → R a b) :
    Option.Rel (List.Forall₂ (Option.Rel R)) es es' := by
  refine rel_of_orNull h (fun _ ↦ by simp [listedEntries]) ?_
  rintro l rfl l' rfl hl
  refine forall₂_of_listedEntries hl fun o ho o' ho' hoo' ↦ rel_of_orNull hoo' hnull ?_
  rintro a rfl b rfl
  exact hf a (List.mem_filterMap.2 ⟨_, ho, rfl⟩) b (List.mem_filterMap.2 ⟨_, ho', rfl⟩)

theorem optionRel_eq : Option.Rel ((· = ·) : α → α → Prop) = (· = ·) := by
  funext o o'
  cases o <;> cases o' <;> simp

theorem eq_of_listedEntries (h : Reordered (listedEntries f as) (listedEntries f bs))
    (hf : ∀ a ∈ as, ∀ b ∈ bs, Reordered (f a) (f b) → a = b) : as = bs := by
  have heq := forall₂_of_listedEntries h hf
  rwa [List.forall₂_eq_eq_eq] at heq

theorem eq_of_orNull (h : Reordered (orNull f o) (orNull f o')) (hnull : ∀ a, f a ≠ .null)
    (hf : ∀ a ∈ o, ∀ b ∈ o', Reordered (f a) (f b) → a = b) : o = o' := by
  have heq := rel_of_orNull h hnull hf
  rwa [optionRel_eq] at heq

theorem eq_of_optionalEntries (h : Reordered (optionalEntries f es) (optionalEntries f es'))
    (hnull : ∀ a, f a ≠ .null)
    (hf : ∀ a ∈ presentEntries es, ∀ b ∈ presentEntries es', Reordered (f a) (f b) → a = b) :
    es = es' := by
  have heq := rel_of_optionalEntries h hnull hf
  rwa [optionRel_eq, List.forall₂_eq_eq_eq, optionRel_eq] at heq

theorem listedEntries_eq (h : List.Forall₂ R as bs) (hf : ∀ a ∈ as, ∀ b, R a b → f a = f b) :
    listedEntries f as = listedEntries f bs :=
  congrArg Json.array <| map_eq_map_iff_forall₂.2 <|
    forall₂_imp_of_mem h fun a ha b _ ↦ hf a ha b

theorem optionalEntries_eq (h : Option.Rel (List.Forall₂ (Option.Rel R)) es es')
    (hf : ∀ a ∈ presentEntries es, ∀ b, R a b → f a = f b) :
    optionalEntries f es = optionalEntries f es' := by
  cases h with
  | none => rfl
  | some hentries =>
    refine listedEntries_eq hentries fun o ho o' hoo' ↦ ?_
    cases hoo' with
    | none => rfl
    | @some a b hab => exact hf a (List.mem_filterMap.2 ⟨_, ho, rfl⟩) b hab

theorem reordered_object_map_iff
    (hf : ∀ p ∈ ps, ∀ q ∈ qs, Reordered (f p.2) (f q.2) ↔ R p.2 q.2) :
    Reordered (.object (ps.map fun p ↦ (p.1, f p.2))) (.object (qs.map fun q ↦ (q.1, f q.2))) ↔
      UpToOrder (UnderSameKey R) ps qs := by
  rw [reordered_object_iff]
  constructor
  · intro h
    exact h.of_map.imp_of_mem fun p hp q hq hpq ↦ ⟨hpq.1, (hf p hp q hq).1 hpq.2⟩
  · intro h
    have h := h.imp_of_mem (S := UnderSameKey fun a b ↦ Reordered (f a) (f b))
      fun p hp q hq hpq ↦ ⟨hpq.1, (hf p hp q hq).2 hpq.2⟩
    exact h.map fun p q hpq ↦ hpq

theorem object_map_eq_iff (hf : ∀ p ∈ ps, ∀ q ∈ qs, f p.2 = f q.2 ↔ R p.2 q.2) :
    Json.object (ps.map fun p ↦ (p.1, f p.2)) = .object (qs.map fun q ↦ (q.1, f q.2)) ↔
      List.Forall₂ (UnderSameKey R) ps qs := by
  rw [Json.object.injEq, map_eq_map_iff_forall₂]
  simp only [Prod.mk.injEq]
  constructor
  · intro h
    exact forall₂_imp_of_mem h fun p hp q hq hpq ↦ ⟨hpq.1, (hf p hp q hq).1 hpq.2⟩
  · intro h
    exact forall₂_imp_of_mem h fun p hp q hq hpq ↦ ⟨hpq.1, (hf p hp q hq).2 hpq.2⟩

end

namespace Token

def IsSimple (t : Token) : Prop :=
  match t.literal with
  | some (.integer _) | some (.boolean _) | some (.keyName _) => True
  | _ => False

variable {t t' : Token}

theorem IsSimple.cases (h : t.IsSimple) :
    (∃ n, t.literal = some (.integer n) ∧ t.toJson = .integer n) ∨
      (∃ b, t.literal = some (.boolean b) ∧ t.toJson = .boolean b) ∨
      ∃ s, t.literal = some (.keyName s) ∧ t.toJson = .string s := by
  unfold IsSimple at h
  unfold toJson
  split at h <;> simp_all

theorem IsSimple.literal_eq (h : t.IsSimple) (h' : t'.IsSimple)
    (hjson : Reordered t.toJson t'.toJson) : t.literal = t'.literal := by
  rcases h.cases with ⟨x, hx, hj⟩ | ⟨x, hx, hj⟩ | ⟨x, hx, hj⟩ <;>
  rcases h'.cases with ⟨y, hy, hj'⟩ | ⟨y, hy, hj'⟩ | ⟨y, hy, hj'⟩ <;>
  · rw [hj, hj'] at hjson
    rw [hx, hy]
    cases hjson <;> rfl

theorem IsSimple.toJson_eq (h : t.IsSimple) (heq : t.literal = t'.literal) :
    t.toJson = t'.toJson := by
  rcases h.cases with ⟨x, hx, hj⟩ | ⟨x, hx, hj⟩ | ⟨x, hx, hj⟩ <;>
  · rw [hj, toJson, ← heq, hx]

theorem IsSimple.not_reordered_array (h : t.IsSimple) (js : List Json) :
    ¬ Reordered t.toJson (.array js) ∧ ¬ Reordered (.array js) t.toJson := by
  rcases h.cases with ⟨x, -, hj⟩ | ⟨x, -, hj⟩ | ⟨x, -, hj⟩ <;>
  · rw [hj]
    constructor <;>
    · intro hjson
      cases hjson

theorem toJson_ne_null (t : Token) : t.toJson ≠ .null := by
  unfold toJson
  split <;> simp

end Token

theorem Formula.toJson_ne_null (f : Formula) : toJson f ≠ .null := by
  unfold toJson
  split
  case h_1 t =>
    cases t with
    | leaf t => exact t.toJson_ne_null
    | _ => simp [Term.toJson]
  case h_2 => simp

namespace Value

theorem toJsonItems_eq_map (vs : List Value) : toJsonItems vs = vs.map toJson := by
  induction vs with
  | nil => rfl
  | cons v vs ih => rw [toJsonItems, ih, List.map_cons]

theorem toJson_ne_null (v : Value) : v.toJson ≠ .null := by
  cases v with
  | scalar t => exact t.toJson_ne_null
  | formula f => exact Formula.toJson_ne_null f
  | _ => simp [toJson]

/-- Whether a value is a literal or an array, with literals at the bottom. -/
inductive IsSimple : Value → Prop
  | scalar {t : Token} (ht : t.IsSimple) : IsSimple (.scalar t)
  | array {items : List Value} (hitems : ∀ v ∈ items, IsSimple v) : IsSimple (.array items)

/-- Whether two values are arrays of the same shape with the same literals in the same places. The
literals may be spelled in different ways. -/
inductive SameLiterals : Value → Value → Prop
  | scalar {t t' : Token} (ht : t.literal = t'.literal) : SameLiterals (.scalar t) (.scalar t')
  | array {vs ws : List Value} (hitems : List.Forall₂ SameLiterals vs ws) :
      SameLiterals (.array vs) (.array ws)

variable {v w : Value}

theorem IsSimple.sameLiterals (hv : v.IsSimple) (hw : w.IsSimple)
    (h : Reordered v.toJson w.toJson) : v.SameLiterals w := by
  induction hv generalizing w with
  | scalar ht =>
    cases hw with
    | scalar ht' => exact .scalar (ht.literal_eq ht' h)
    | array _ => exact absurd h (ht.not_reordered_array _).1
  | array _ ih =>
    cases hw with
    | scalar ht' => exact absurd h (ht'.not_reordered_array _).2
    | array hws =>
      rw [toJson, toJson, toJsonItems_eq_map, toJsonItems_eq_map] at h
      exact .array (forall₂_of_listedEntries h fun v hv w hw ↦ ih v hv (hws w hw))

theorem IsSimple.toJson_eq (hv : v.IsSimple) (h : v.SameLiterals w) : v.toJson = w.toJson := by
  induction hv generalizing w with
  | scalar ht =>
    cases h with
    | scalar heq => exact ht.toJson_eq heq
  | array _ ih =>
    cases h with
    | array hitems =>
      rw [toJson, toJson, toJsonItems_eq_map, toJsonItems_eq_map, Json.array.injEq,
        map_eq_map_iff_forall₂]
      exact forall₂_imp_of_mem hitems fun v hv w _ ↦ ih v hv

end Value

theorem TypeEntry.eq_of_reordered {e e' : TypeEntry} (he : ∃ name, e = .named name)
    (he' : ∃ name, e' = .named name) (h : Reordered e.toJson e'.toJson) : e = e' := by
  obtain ⟨name, rfl⟩ := he
  obtain ⟨name', rfl⟩ := he'
  cases h
  rfl

theorem SinceVersion.eq_of_reordered {v v' : SinceVersion} (hv : ∃ text, v = .version text)
    (hv' : ∃ text, v' = .version text) (h : Reordered v.toJson v'.toJson) : v = v' := by
  obtain ⟨text, rfl⟩ := hv
  obtain ⟨text', rfl⟩ := hv'
  cases h
  rfl

theorem Flag.eq_of_reordered {f f' : Flag} (hf : ∃ b, f = .literal b) (hf' : ∃ b, f' = .literal b)
    (h : Reordered f.toJson f'.toJson) : f = f' := by
  obtain ⟨b, rfl⟩ := hf
  obtain ⟨b', rfl⟩ := hf'
  cases h
  rfl

theorem LinkTarget.eq_of_reordered {l l' : LinkTarget} (hl : ∃ name, l = .object name)
    (hl' : ∃ name, l' = .object name) (h : Reordered l.toJson l'.toJson) : l = l' := by
  obtain ⟨name, rfl⟩ := hl
  obtain ⟨name', rfl⟩ := hl'
  cases h
  rfl

theorem Column.label_injective : Function.Injective label := by
  have hnodup : (all.map label).Nodup := by decide
  have hall : ∀ c : Column, c ∈ all := by
    intro c
    cases c <;> decide
  exact fun c c' h ↦ List.inj_on_of_nodup_map hnodup (hall c) (hall c') h

namespace Row

structure IsLiteral (r : Row) : Prop where
  types : ∀ e ∈ r.types, ∃ name, e = .named name
  sinceVersion : ∃ text, r.sinceVersion = .version text
  required : ∀ f ∈ r.required, ∃ b, f = .literal b
  indirectReference : ∀ f ∈ r.indirectReference, ∃ b, f = .literal b
  inheritable : ∃ b, r.inheritable = .literal b
  defaultValue : ∀ v ∈ presentEntries r.defaultValue, v.IsSimple
  possibleValues : ∀ vs ∈ presentEntries r.possibleValues, ∀ v ∈ vs, v.IsSimple
  specialCase : r.specialCase = none
  link : ∀ ls ∈ presentEntries r.link, ∀ l ∈ ls, ∃ name, l = .object name

structure SameLiterals (r r' : Row) : Prop where
  types : r.types = r'.types
  sinceVersion : r.sinceVersion = r'.sinceVersion
  deprecatedIn : r.deprecatedIn = r'.deprecatedIn
  required : r.required = r'.required
  indirectReference : r.indirectReference = r'.indirectReference
  inheritable : r.inheritable = r'.inheritable
  defaultValue : Option.Rel (List.Forall₂ (Option.Rel Value.SameLiterals))
    r.defaultValue r'.defaultValue
  possibleValues : Option.Rel (List.Forall₂ (Option.Rel (List.Forall₂ Value.SameLiterals)))
    r.possibleValues r'.possibleValues
  specialCase : r.specialCase = r'.specialCase
  link : r.link = r'.link
  note : r.note = r'.note

variable {r r' : Row}

theorem reordered_cell (h : Reordered r.toJson r'.toJson) (c : Column) :
    Reordered (r.cellToJson c) (r'.cellToJson c) := by
  by_cases hc : c ∈ Column.all.drop 1
  · obtain ⟨c', -, hlabel, hcell⟩ := (reordered_object_iff.1 h).of_map.exists_of_mem hc
    rwa [Column.label_injective hlabel] at hcell ⊢
  · obtain rfl : c = .key := by
      revert hc
      cases c <;> decide
    exact .refl _

theorem eq_of_reordered_text {o o' : Option String}
    (h : Reordered (orNull .string o) (orNull .string o')) : o = o' := by
  refine eq_of_orNull h (by simp) fun s _ s' _ hs ↦ ?_
  cases hs
  rfl

theorem IsLiteral.sameLiterals (hr : r.IsLiteral) (hr' : r'.IsLiteral)
    (h : Reordered r.toJson r'.toJson) : r.SameLiterals r' where
  types := eq_of_listedEntries (reordered_cell h .type) fun e he e' he' ↦
    TypeEntry.eq_of_reordered (hr.types e he) (hr'.types e' he')
  sinceVersion := SinceVersion.eq_of_reordered hr.sinceVersion hr'.sinceVersion
    (reordered_cell h .sinceVersion)
  deprecatedIn := eq_of_reordered_text (reordered_cell h .deprecatedIn)
  required := eq_of_listedEntries (reordered_cell h .required) fun f hf f' hf' ↦
    Flag.eq_of_reordered (hr.required f hf) (hr'.required f' hf')
  indirectReference := eq_of_listedEntries (reordered_cell h .indirectReference)
    fun f hf f' hf' ↦
      Flag.eq_of_reordered (hr.indirectReference f hf) (hr'.indirectReference f' hf')
  inheritable := Flag.eq_of_reordered hr.inheritable hr'.inheritable
    (reordered_cell h .inheritable)
  defaultValue := rel_of_optionalEntries (reordered_cell h .defaultValue) Value.toJson_ne_null
    fun v hv v' hv' ↦ (hr.defaultValue v hv).sameLiterals (hr'.defaultValue v' hv')
  possibleValues := rel_of_optionalEntries (reordered_cell h .possibleValues)
    (by simp [listedEntries]) fun vs hvs vs' hvs' hjson ↦
      forall₂_of_listedEntries hjson fun v hv v' hv' ↦
        (hr.possibleValues vs hvs v hv).sameLiterals (hr'.possibleValues vs' hvs' v' hv')
  specialCase := hr.specialCase.trans hr'.specialCase.symm
  link := eq_of_optionalEntries (reordered_cell h .link) (by simp [listedEntries])
    fun ls hls ls' hls' hjson ↦ eq_of_listedEntries hjson fun l hl l' hl' ↦
      LinkTarget.eq_of_reordered (hr.link ls hls l hl) (hr'.link ls' hls' l' hl')
  note := eq_of_reordered_text (reordered_cell h .note)

theorem IsLiteral.toJson_eq (hr : r.IsLiteral) (h : r.SameLiterals r') : r.toJson = r'.toJson := by
  have hdefault : optionalEntries Value.toJson r.defaultValue =
      optionalEntries Value.toJson r'.defaultValue :=
    optionalEntries_eq h.defaultValue fun v hv w ↦ (hr.defaultValue v hv).toJson_eq
  have hpossible : optionalEntries (listedEntries Value.toJson) r.possibleValues =
      optionalEntries (listedEntries Value.toJson) r'.possibleValues :=
    optionalEntries_eq h.possibleValues fun vs hvs ws hvw ↦ listedEntries_eq hvw fun v hv w ↦
      (hr.possibleValues vs hvs v hv).toJson_eq
  have hcell : r.cellToJson = r'.cellToJson := by
    funext c
    cases c with
    | defaultValue => exact hdefault
    | possibleValues => exact hpossible
    | _ => simp only [cellToJson, h.types, h.sinceVersion, h.deprecatedIn, h.required,
        h.indirectReference, h.inheritable, h.specialCase, h.link, h.note]
  rw [toJson, toJson, hcell]

theorem IsLiteral.reordered_iff (hr : r.IsLiteral) (hr' : r'.IsLiteral) :
    Reordered r.toJson r'.toJson ↔ r.SameLiterals r' := by
  refine ⟨hr.sameLiterals hr', fun h ↦ ?_⟩
  rw [hr.toJson_eq h]
  exact .refl _

theorem IsLiteral.toJson_eq_iff (hr : r.IsLiteral) (hr' : r'.IsLiteral) :
    r.toJson = r'.toJson ↔ r.SameLiterals r' := by
  refine ⟨fun h ↦ hr.sameLiterals hr' ?_, hr.toJson_eq⟩
  rw [h]
  exact .refl _

end Row

namespace Schema

def IsLiteral (s : Schema) : Prop := ∀ o ∈ s.pairs, ∀ r ∈ o.2.pairs, r.2.IsLiteral

variable {s s' : Schema}

/-- Schemas of literals have the same JSON but for the order of members exactly if they have, in
some order, the same objects with the same keys in some order, and under these rows that are the
same but for the spelling of literals. They have the same JSON exactly if in addition the orders are
the same. -/
theorem literals_survive_export (hs : s.IsLiteral) (hs' : s'.IsLiteral) :
    (Reordered s.toJson s'.toJson ↔ UpToOrder
      (UnderSameKey fun o o' ↦ UpToOrder (UnderSameKey Row.SameLiterals) o.pairs o'.pairs)
      s.pairs s'.pairs) ∧
    (s.toJson = s'.toJson ↔ List.Forall₂
      (UnderSameKey fun o o' ↦ List.Forall₂ (UnderSameKey Row.SameLiterals) o.pairs o'.pairs)
      s.pairs s'.pairs) := by
  constructor
  · refine reordered_object_map_iff fun o ho o' ho' ↦ ?_
    exact reordered_object_map_iff fun r hr r' hr' ↦
      (hs o ho r hr).reordered_iff (hs' o' ho' r' hr')
  · refine object_map_eq_iff fun o ho o' ho' ↦ ?_
    exact object_map_eq_iff fun r hr r' hr' ↦
      (hs o ho r hr).toJson_eq_iff (hs' o' ho' r' hr')

def spelledRow (truth number : String) : Row where
  types := [.named "array", .named "null"]
  sinceVersion := .version "1.0"
  deprecatedIn := none
  required := [.literal true]
  indirectReference := [.literal false]
  inheritable := .literal false
  defaultValue := some [some (.array [.scalar ⟨.trueWord, truth⟩,
    .array [.scalar ⟨.integer, number⟩, .scalar ⟨.keyName, "true"⟩], .array []]), none]
  possibleValues := some [none, some []]
  specialCase := none
  link := some [some [.object "Page", .object "Pages"], none]
  note := some ""

theorem isLiteral_spelledRow (truth number : String) : (spelledRow truth number).IsLiteral where
  types := by simp [spelledRow]
  sinceVersion := ⟨_, rfl⟩
  required := by simp [spelledRow]
  indirectReference := by simp [spelledRow]
  inheritable := ⟨_, rfl⟩
  defaultValue := by
    have hname : (⟨.keyName, "true"⟩ : Token).IsSimple := trivial
    have hinner : Value.IsSimple (.array [.scalar ⟨.integer, number⟩, .scalar ⟨.keyName, "true"⟩]) :=
      .array (by simpa using ⟨.scalar trivial, .scalar hname⟩)
    have hempty : Value.IsSimple (.array []) := .array (by simp)
    have hall : Value.IsSimple (.array [.scalar ⟨.trueWord, truth⟩,
        .array [.scalar ⟨.integer, number⟩, .scalar ⟨.keyName, "true"⟩], .array []]) :=
      .array (by simpa using ⟨.scalar trivial, hinner, hempty⟩)
    simpa [spelledRow, presentEntries] using hall
  possibleValues := by simp [spelledRow, presentEntries]
  specialCase := rfl
  link := by simp [spelledRow, presentEntries]

theorem sameLiterals_spelledRow : (spelledRow "true" "7").SameLiterals (spelledRow "TRUE" "007") where
  types := rfl
  sinceVersion := rfl
  deprecatedIn := rfl
  required := rfl
  indirectReference := rfl
  inheritable := rfl
  defaultValue := by
    have hnumber : (⟨.integer, "7"⟩ : Token).literal = (⟨.integer, "007"⟩ : Token).literal := by
      decide +kernel
    refine .some (.cons (.some (.array (.cons (.scalar rfl) (.cons (.array ?_) (.cons ?_ .nil)))))
      (.cons .none .nil))
    · exact .cons (.scalar hnumber) (.cons (.scalar rfl) .nil)
    · exact .array .nil
  possibleValues := .some (.cons .none (.cons (.some .nil) .nil))
  specialCase := rfl
  link := rfl
  note := rfl

def twoKeys (key key' : String) (hne : key ≠ key') (r : Row) : Schema :=
  ⟨[("Page", ⟨[(key, r), (key', r)], by simpa [Pairs.keys] using hne⟩)], by simp [Pairs.keys]⟩

def plainSchema : Schema := twoKeys "A" "B" (by decide) (spelledRow "true" "7")

def respelledSchema : Schema := twoKeys "B" "A" (by decide) (spelledRow "TRUE" "007")

/-- The rows stand in another order, and their values are spelled in another way. -/
theorem literals_survive_export_respelled : plainSchema.IsLiteral ∧ respelledSchema.IsLiteral ∧
    Reordered plainSchema.toJson respelledSchema.toJson ∧
    plainSchema.toJson ≠ respelledSchema.toJson := by
  have hliteral (key key' : String) (hne : key ≠ key') (truth number : String) :
      (twoKeys key key' hne (spelledRow truth number)).IsLiteral := by
    refine List.forall_mem_singleton.2 (List.forall_mem_cons.2 ⟨?_, List.forall_mem_singleton.2 ?_⟩)
    · exact isLiteral_spelledRow truth number
    · exact isLiteral_spelledRow truth number
  have hs : plainSchema.IsLiteral := hliteral _ _ _ _ _
  have hs' : respelledSchema.IsLiteral := hliteral _ _ _ _ _
  refine ⟨hs, hs', (literals_survive_export hs hs').1.2 ?_, fun h ↦ ?_⟩
  · refine .of_forall₂ (.cons ⟨rfl, _, ?_, .swap _ _ _⟩ .nil)
    exact .cons ⟨rfl, sameLiterals_spelledRow⟩ (.cons ⟨rfl, sameLiterals_spelledRow⟩ .nil)
  · have hrows := (List.forall₂_cons.1 ((literals_survive_export hs hs').2.1 h)).1.2
    have hkey : "A" = "B" := (List.forall₂_cons.1 hrows).1.1
    exact absurd hkey (by decide)

end Schema

end PdfSchema
