import PdfSchema.Proofs.Row.Cell
import PdfSchema.Row.OfRecord

namespace PdfSchema

section Results

variable {ε α β : Type}

theorem bind_eq_ok_iff {x : Except ε α} {f : α → Except ε β} {b : β} :
    (x >>= f) = .ok b ↔ ∃ a, x = .ok a ∧ f a = .ok b := by
  cases x with
  | error e => exact ⟨fun h ↦ (nomatch h), fun ⟨_, h, _⟩ ↦ nomatch h⟩
  | ok a => exact ⟨fun h ↦ ⟨a, rfl, h⟩, fun ⟨_, h, hf⟩ ↦ Except.ok.inj h ▸ hf⟩

theorem map_eq_ok_iff {x : Except ε α} {f : α → β} {b : β} :
    x.map f = .ok b ↔ ∃ a, x = .ok a ∧ f a = b := by
  cases x <;> simp [Except.map]

theorem mapM_eq_ok_map {f : α → Except ε β} {g : α → β} {as : List α}
    (h : ∀ a ∈ as, f a = .ok (g a)) : as.mapM f = .ok (as.map g) := by
  induction as with
  | nil => rfl
  | cons a as ih =>
    obtain ⟨ha, has⟩ := List.forall_mem_cons.1 h
    rw [List.mapM_cons, ha, ih has]
    rfl

theorem exists_of_mapM_eq_ok {f : α → Except ε β} {as : List α} {bs : List β}
    (h : as.mapM f = .ok bs) : bs.length = as.length ∧ ∀ a ∈ as, ∃ b ∈ bs, f a = .ok b := by
  induction as generalizing bs with
  | nil =>
    cases h
    exact ⟨rfl, fun a ha ↦ nomatch ha⟩
  | cons a as ih =>
    rw [List.mapM_cons, bind_eq_ok_iff] at h
    obtain ⟨b, hb, h⟩ := h
    obtain ⟨bs, hbs, h⟩ := bind_eq_ok_iff.1 h
    cases h
    obtain ⟨hlength, hall⟩ := ih hbs
    refine ⟨congrArg (· + 1) hlength, List.forall_mem_cons.2 ⟨⟨b, List.mem_cons_self, hb⟩, ?_⟩⟩
    intro a ha
    obtain ⟨b', hb', hf⟩ := hall a ha
    exact ⟨b', List.mem_cons_of_mem b hb', hf⟩

theorem exists_of_mapM_getElem? {f : α → Except ε β} {as : List α} {bs : List β}
    (h : as.mapM f = .ok bs) {i : ℕ} {b : β} (hb : bs[i]? = some b) :
    ∃ a, as[i]? = some a ∧ f a = .ok b := by
  induction as generalizing bs i with
  | nil =>
    cases h
    cases hb
  | cons a as ih =>
    rw [List.mapM_cons, bind_eq_ok_iff] at h
    obtain ⟨b', hb', h⟩ := h
    obtain ⟨bs, hbs, h⟩ := bind_eq_ok_iff.1 h
    cases h
    cases i with
    | zero => exact ⟨a, rfl, Option.some.inj hb ▸ hb'⟩
    | succ i => exact ih hbs hb

theorem mapM_append_eq_ok {f : α → Except ε β} {as as' : List α} {bs bs' : List β}
    (h : as.mapM f = .ok bs) (h' : as'.mapM f = .ok bs') :
    (as ++ as').mapM f = .ok (bs ++ bs') := by
  rw [List.mapM_append, h, h']
  rfl

end Results

namespace Row

theorem mapPresent_singleton {α β ε : Type} (f : Nat → α → Except ε β) (a : α) :
    mapPresent f [some a] = (f 0 a).map fun b ↦ [some b] := by
  cases h : f 0 a <;> simp [mapPresent, h, Except.map, bind, Except.bind, pure, Except.pure]

theorem length_of_mapPresent {α β ε : Type} {f : Nat → α → Except ε β} {entries : List (Option α)}
    {bs : List (Option β)} (h : mapPresent f entries = .ok bs) : bs.length = entries.length :=
  (exists_of_mapM_eq_ok h).1.trans List.length_zipIdx

theorem exists_of_mapPresent {α β ε : Type} {f : Nat → α → Except ε β} {entries : List (Option α)}
    {bs : List (Option β)} (h : mapPresent f entries = .ok bs) {i : ℕ} {b : β}
    (hb : bs[i]? = some (some b)) : ∃ a, entries[i]? = some (some a) ∧ f i a = .ok b := by
  obtain ⟨⟨entry, j⟩, hentry, hf⟩ := exists_of_mapM_getElem? h hb
  obtain ⟨a, ha, hpair⟩ := Option.map_eq_some_iff.1 (List.getElem?_zipIdx.symm.trans hentry)
  obtain ⟨rfl, rfl⟩ := Prod.mk.inj hpair
  cases a with
  | none => cases hf
  | some a =>
    obtain ⟨b', hb', heq⟩ := map_eq_ok_iff.1 hf
    cases heq
    exact ⟨a, ha, by simpa using hb'⟩

variable {s : String} {types : List TypeEntry} {t : TypeEntry}

/-- Of a cell cut at its semicolons one entry more is read than there are of them. -/
theorem length_of_alternatives {β : Type} {f : Nat → String → Except CellError β}
    {column : Option (List (Option β))}
    (h : (mapPresent f ((Cell.alternatives s).map Cell.alternative?)).map some = .ok column) :
    ∃ entries, column = some entries ∧ entries.length = s.toList.count ';' + 1 := by
  obtain ⟨entries, hentries, rfl⟩ := map_eq_ok_iff.1 h
  refine ⟨entries, rfl, ?_⟩
  rw [length_of_mapPresent hentries, List.length_map, Cell.length_alternatives]

theorem length_of_defaultValues (hcut : ';' ∈ (Text.trim s).toList)
    {defaults : Option (List (Option Value))} (h : defaultValues s types = .ok defaults) :
    ∃ entries, defaults = some entries ∧
      entries.length = (Text.trim s).toList.count ';' + 1 := by
  rw [defaultValues, Cell.optionalAlternatives_of_mem hcut] at h
  exact length_of_alternatives h

theorem length_of_possibleValueLists (hcut : ';' ∈ (Text.trim s).toList)
    {possible : Option (List (Option (List Value)))}
    (h : possibleValueLists s types = .ok possible) :
    ∃ entries, possible = some entries ∧
      entries.length = (Text.trim s).toList.count ';' + 1 := by
  rw [possibleValueLists, Cell.optionalAlternatives_of_mem hcut] at h
  exact length_of_alternatives h

theorem possibleValueLists_brackets (hcut : ';' ∉ s.toList) (hne : s ≠ "") :
    possibleValueLists ("[" ++ s ++ "]") [t] =
      (possibleValuesOf s).map fun values ↦ some [some (values.map (asName (some t)))] := by
  rw [possibleValueLists, Cell.optionalAlternatives_brackets hcut hne]
  simp only [mapPresent_singleton]
  cases possibleValuesOf s <;> rfl

end Row

namespace Table.Record

open Row

/-- Whether each column of a record is read as what the row says. -/
structure ReadAs (r : Record) (row : Row) : Prop where
  types : (Cell.alternatives (r.cell .type)).mapM typeEntry = .ok row.types
  sinceVersion : sinceVersionOf (Text.trim (r.cell .sinceVersion)) = .ok row.sinceVersion
  deprecatedIn : row.deprecatedIn = Cell.text? (r.cell .deprecatedIn)
  required : (Cell.alternatives (r.cell .required)).mapM (flag .required) = .ok row.required
  indirectReference : ∃ flags,
    ((Cell.alternatives (r.cell .indirectReference)).mapM fun s ↦
      flag .indirectReference ((Cell.inBrackets? s).getD s)) = .ok flags ∧
    row.indirectReference = broadcast flags row.types.length
  inheritable : flag .inheritable (Text.trim (r.cell .inheritable)) = .ok row.inheritable
  defaultValue : defaultValues (r.cell .defaultValue) row.types = .ok row.defaultValue
  possibleValues : possibleValueLists (r.cell .possibleValues) row.types = .ok row.possibleValues
  specialCase : specialCases (r.cell .specialCase) = .ok row.specialCase
  link : linkTargets (r.cell .link) = .ok row.link
  note : row.note = Cell.text? (r.cell .note)

variable {r r' : Record} {row : Row} {head : Head} {body : Body}

theorem readHead_eq_ok_iff : readHead r = .ok head ↔
    (Cell.alternatives (r.cell .type)).mapM typeEntry = .ok head.types ∧
      sinceVersionOf (Text.trim (r.cell .sinceVersion)) = .ok head.sinceVersion ∧
      (Cell.alternatives (r.cell .required)).mapM (flag .required) = .ok head.required ∧
      ∃ flags, ((Cell.alternatives (r.cell .indirectReference)).mapM fun s ↦
          flag .indirectReference ((Cell.inBrackets? s).getD s)) = .ok flags ∧
        head.indirectReference = broadcast flags head.types.length := by
  simp only [readHead, bind_eq_ok_iff]
  constructor
  · rintro ⟨types, htypes, since, hsince, required, hrequired, flags, hflags, h⟩
    cases h
    exact ⟨htypes, hsince, hrequired, flags, hflags, rfl⟩
  · rintro ⟨htypes, hsince, hrequired, flags, hflags, hindirect⟩
    refine ⟨_, htypes, _, hsince, _, hrequired, flags, hflags, ?_⟩
    rw [← hindirect]
    rfl

theorem readBody_eq_ok_iff {types : List TypeEntry} : readBody r types = .ok body ↔
    flag .inheritable (Text.trim (r.cell .inheritable)) = .ok body.inheritable ∧
      defaultValues (r.cell .defaultValue) types = .ok body.defaultValue ∧
      possibleValueLists (r.cell .possibleValues) types = .ok body.possibleValues ∧
      specialCases (r.cell .specialCase) = .ok body.specialCase := by
  simp only [readBody, bind_eq_ok_iff]
  constructor
  · rintro ⟨inheritable, hinheritable, defaults, hdefaults, possible, hpossible, special, hspecial,
      h⟩
    cases h
    exact ⟨hinheritable, hdefaults, hpossible, hspecial⟩
  · rintro ⟨hinheritable, hdefaults, hpossible, hspecial⟩
    exact ⟨_, hinheritable, _, hdefaults, _, hpossible, _, hspecial, rfl⟩

theorem readAs_iff : r.ReadAs row ↔ ∃ findings, ofRecord r = (findings, .ok row) := by
  constructor
  · intro h
    have hhead : readHead r =
        .ok ⟨row.types, row.sinceVersion, row.required, row.indirectReference⟩ :=
      readHead_eq_ok_iff.2 ⟨h.types, h.sinceVersion, h.required, h.indirectReference⟩
    have hbody : readBody r row.types =
        .ok ⟨row.inheritable, row.defaultValue, row.possibleValues, row.specialCase⟩ :=
      readBody_eq_ok_iff.2 ⟨h.inheritable, h.defaultValue, h.possibleValues, h.specialCase⟩
    refine ⟨(ofRecord r).1, Prod.ext rfl ?_⟩
    simp only [ofRecord, hhead, hbody, h.link, ← h.deprecatedIn, ← h.note]
  · rintro ⟨findings, h⟩
    unfold ofRecord at h
    split at h
    · cases h
    · rename_i head hhead
      simp only at h
      split at h
      · cases h
      · rename_i body hbody
        split at h
        · cases h
        · rename_i link hlink
          cases h
          obtain ⟨htypes, hsince, hrequired, hindirect⟩ := readHead_eq_ok_iff.1 hhead
          obtain ⟨hinheritable, hdefault, hpossible, hspecial⟩ := readBody_eq_ok_iff.1 hbody
          refine ⟨htypes, hsince, ?_, hrequired, hindirect, hinheritable, hdefault, hpossible,
            hspecial, hlink, ?_⟩ <;> dsimp only

def SameBut (columns : List Column) (r r' : Record) : Prop :=
  ∀ c ∉ columns, r.cell c = r'.cell c

theorem SameBut.mono {columns columns' : List Column} (h : SameBut columns r r')
    (hsub : columns ⊆ columns') : SameBut columns' r r' := fun c hc ↦ h c fun hm ↦ hc (hsub hm)

theorem ReadAs.rewrite (h : r'.ReadAs row)
    (hsame : SameBut [.defaultValue, .possibleValues, .link] r r')
    {defaults : Option (List (Option Value))} {possible : Option (List (Option (List Value)))}
    {link : Option (List (Option (List LinkTarget)))}
    (hdefault : defaultValues (r.cell .defaultValue) row.types = .ok defaults)
    (hpossible : possibleValueLists (r.cell .possibleValues) row.types = .ok possible)
    (hlink : linkTargets (r.cell .link) = .ok link) :
    r.ReadAs { row with defaultValue := defaults, possibleValues := possible, link := link } where
  types := by rw [hsame .type (by decide)]; exact h.types
  sinceVersion := by rw [hsame .sinceVersion (by decide)]; exact h.sinceVersion
  deprecatedIn := by rw [hsame .deprecatedIn (by decide)]; exact h.deprecatedIn
  required := by rw [hsame .required (by decide)]; exact h.required
  indirectReference := by rw [hsame .indirectReference (by decide)]; exact h.indirectReference
  inheritable := by rw [hsame .inheritable (by decide)]; exact h.inheritable
  defaultValue := hdefault
  possibleValues := hpossible
  specialCase := by rw [hsame .specialCase (by decide)]; exact h.specialCase
  link := hlink
  note := by rw [hsame .note (by decide)]; exact h.note

end Table.Record

end PdfSchema
