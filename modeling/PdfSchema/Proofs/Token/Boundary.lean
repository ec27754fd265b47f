import PdfSchema.Proofs.Token.Word

namespace PdfSchema.Token

/-- A letter, and behind it letters, digits, underscores, points and hyphens. -/
def IsName (w : String) : Prop :=
  w.toList.head?.any Char.isAlpha = true ∧ ∀ c ∈ w.toList, isSegmentChar c = true

instance (w : String) : Decidable (IsName w) :=
  @instDecidableAnd _ _ _ (List.decidableBAll _ w.toList)

/-- Whether `w` is the keyword `u` of the kind `k`, and behind it a point or a hyphen and what else
there is in `v`. -/
structure RunsOn (w : String) (k : Kind) (u v : String) : Prop where
  text : w = u ++ v
  keyword : keyword? u = some k
  next : v.toList.head? = some '.' ∨ v.toList.head? = some '-'

variable {k k' : Kind} {r : List Char} {u u' v v' w : String} {n : ℕ}

theorem isWordChar_or_of_isSegmentChar {c : Char} (h : isSegmentChar c = true) :
    isWordChar c = true ∨ c = '.' ∨ c = '-' := by
  simpa [isSegmentChar, or_assoc] using h

theorem isAlphanum_of_isWord (hk : k.isWord = true) (hr : k.Spells r)
    (h : ∀ c ∈ r, isSegmentChar c = true) : ∀ c ∈ r, c.isAlphanum = true := by
  obtain ⟨c, w, rfl, hstart, hw⟩ := Kind.shapes_of_spells hr
  obtain ⟨-, h⟩ := List.forall_mem_cons.1 h
  refine List.forall_mem_cons.2 ⟨?_, fun d hd ↦ ?_⟩
  · rw [Char.isAlphanum, Kind.isAlpha_of_starts hk hstart, Bool.true_or]
  · rcases Kind.isAlpha_of_continues hk (hw d hd) with hd' | ⟨-, rfl⟩
    · rw [Char.isAlphanum, hd', Bool.true_or]
    · exact absurd (h 'ſ' hd) (by decide)

/-- Of the patterns, that of a name fits a name, and those of the keywords fit in front of a point
or a hyphen. -/
theorem Kind.of_match?_name (hw : IsName w) (hnot : keyword? w = none)
    (h : k.match? w.toList = some n) : k = .keyName ∨ ∃ u v, RunsOn w k u v := by
  obtain ⟨hhead, hall⟩ := hw
  obtain ⟨r, a, hs, -, hr, ha⟩ := spells_of_match? h
  obtain ⟨c, x, rfl, hc, -⟩ := shapes_of_spells hr
  have hca : c.isAlpha = true := by simpa [hs] using hhead
  obtain ⟨hrall, haall⟩ := List.forall_mem_append.1 (hs ▸ hall)
  have hcolon : ':' ∉ c :: x := fun hmem ↦ absurd (hrall ':' hmem) (by decide)
  by_cases hk : k.isWord = true
  · have hkeyword : keyword? (String.ofList (c :: x)) = some k :=
      (keyword?_eq_some_iff (by simpa using isAlphanum_of_isWord hk hr hrall)).2
        ⟨hk, by simpa using hr⟩
    have htext : w = String.ofList (c :: x) ++ String.ofList a := by
      rw [← String.ofList_append, ← hs, String.ofList_toList]
    refine .inr ⟨_, _, htext, hkeyword, ?_⟩
    cases a with
    | nil =>
      rw [htext, String.ofList_nil, String.append_empty, hkeyword] at hnot
      cases hnot
    | cons d a =>
      have hd := (isWordChar_or_of_isSegmentChar (haall d List.mem_cons_self)).resolve_left
        (by simp [ha hk d rfl])
      simpa using hd
  cases k with
  | keyName => exact .inl rfl
  | functionHead =>
    obtain ⟨_, _, -, -, -, hcx⟩ := hr
    exact absurd (by simp [hcx]) hcolon
  | keyPath =>
    obtain ⟨ss, hne, hsegments, hcx⟩ := hr
    obtain ⟨segment, ss, rfl⟩ := List.exists_cons_of_ne_nil hne
    obtain ⟨y, z, -, -, rfl⟩ := hsegments _ List.mem_cons_self
    exact absurd (by simp [hcx]) hcolon
  | trueWord | falseWord | modulo => exact absurd rfl hk
  | real | integer =>
    rcases Bool.or_eq_true_iff.1 hc with hd | hd
    · exact absurd hd (by simp [not_isDigit_of_isAlpha hca])
    · obtain rfl := of_decide_eq_true hd
      exact absurd hca (by decide)
  | _ =>
    obtain rfl := of_decide_eq_true hc
    exact absurd hca (by decide)

theorem isAlpha_of_keyword? (h : keyword? u = some k) : ∀ c ∈ u.toList, c.isAlpha = true := by
  have hlower {word : List Char} (hword : ∀ c ∈ word, c.isAlpha = true)
      (h : u.toList.map Char.toLower = word) : ∀ c ∈ u.toList, c.isAlpha = true :=
    fun c hc ↦ isAlpha_of_toLower (hword _ (h ▸ List.mem_map_of_mem hc))
  rcases keyword?_cases h with ⟨-, h⟩ | ⟨-, h⟩ | ⟨-, rfl⟩
  · exact hlower (List.all_eq_true.1 rfl) h
  · exact hlower (List.all_eq_true.1 rfl) h
  · exact List.all_eq_true.1 rfl

namespace RunsOn

theorem not_isWordChar (h : RunsOn w k u v) : ∀ c ∈ v.toList.head?, isWordChar c = false := by
  intro c hc
  rcases h.next with hnext | hnext <;>
  · obtain rfl := Option.some.inj (hc.symm.trans hnext)
    rfl

theorem run_eq (h : RunsOn w k u v) : Pattern.run isWordChar w.toList = u.toList.length := by
  rw [h.text, String.toList_append]
  exact Pattern.run_append_of_stop
    (fun c hc ↦ isWordChar_of_isAlpha (isAlpha_of_keyword? h.keyword c hc)) h.not_isWordChar

theorem unique (h : RunsOn w k u v) (h' : RunsOn w k' u' v') : k = k' ∧ u = u' := by
  have hu : u = u' := by
    have htext : u.toList ++ v.toList = u'.toList ++ v'.toList := by
      rw [← String.toList_append, ← String.toList_append, ← h.text, ← h'.text]
    exact String.toList_injective (List.append_inj htext (h.run_eq.symm.trans h'.run_eq)).1
  subst hu
  exact ⟨Option.some.inj (h.keyword.symm.trans h'.keyword), rfl⟩

variable (hw : IsName w) (hnot : keyword? w = none) (h : RunsOn w k u v)

include hw hnot h

theorem first?_eq : first? w.toList = some (k, u.toList.length) := by
  have hk := isWord_of_keyword? h.keyword
  have hspells : k.Spells u.toList := by
    refine ((keyword?_eq_some_iff fun c hc ↦ ?_).1 h.keyword).2
    rw [Char.isAlphanum, isAlpha_of_keyword? h.keyword c hc, Bool.true_or]
  have hmatch : k.match? w.toList = some u.toList.length := by
    refine (Kind.match?_eq_some_iff_of_isWord hk).2 ⟨_, _, ?_, rfl, hspells, h.not_isWordChar⟩
    rw [h.text, String.toList_append]
  have hname : .keyName ∉ Kind.byPriority.takeWhile (· ≠ k) := by
    cases k <;> first | decide | cases hk
  refine first?_eq_some hmatch fun k' hk' ↦ Option.eq_none_iff_forall_ne_some.2 fun n hn ↦ ?_
  rcases Kind.of_match?_name hw hnot hn with rfl | ⟨u', v', h'⟩
  · exact hname hk'
  · obtain ⟨rfl, -⟩ := h.unique h'
    simpa using List.mem_takeWhile_imp hk'

theorem scan_eq :
    scan w = ((scan v).mapError (ScanError.shift u.utf8ByteSize)).map (⟨k, u⟩ :: ·) := by
  have hraw : ofRaw k u.toList = .ok ⟨k, u⟩ := by
    rcases keyword?_cases h.keyword with ⟨rfl, -⟩ | ⟨rfl, -⟩ | ⟨rfl, -⟩ <;> simp [ofRaw]
  have hfirst := h.first?_eq hw hnot
  rw [h.text, String.toList_append] at hfirst
  rw [scan, scan, h.text, String.toList_append, scanFrom_token (t := ⟨k, u⟩) hfirst hraw,
    Text.byteLength_toList, Nat.add_comm, scanFrom_add]

end RunsOn

theorem first?_name (hw : IsName w) (hnot : keyword? w = none)
    (h : ∀ k u v, ¬ RunsOn w k u v) : first? w.toList = some (.keyName, w.toList.length) := by
  have hspells : Kind.keyName.Spells w.toList := by
    obtain ⟨hhead, hall⟩ := hw
    cases hs : w.toList with
    | nil =>
      rw [hs] at hhead
      cases hhead
    | cons c v =>
      rw [hs] at hhead hall
      have hc : c.isAlpha = true := hhead
      exact ⟨[c], v, ⟨[], c, by simp, .inr (by simp [hc]), rfl⟩,
        fun d hd ↦ isNameChar_of_isSegmentChar (hall d (List.mem_cons_of_mem c hd)), rfl⟩
  refine first?_eq_some (Kind.match?_eq_length hspells) fun k' hk' ↦
    Option.eq_none_iff_forall_ne_some.2 fun n hn ↦ ?_
  rcases Kind.of_match?_name hw hnot hn with rfl | ⟨u, v, h'⟩
  · simpa using List.mem_takeWhile_imp hk'
  · exact h k' u v h'

/-- A name that is no keyword is one token unless it goes on with a point or a hyphen behind a
keyword: there it is cut, and what follows is read on its own. -/
theorem scan_name_iff (hw : IsName w) (hnot : keyword? w = none) :
    (scan w = .ok [⟨.keyName, w⟩] ↔ ∀ k u v, ¬ RunsOn w k u v) ∧
    (⟨.keyName, w⟩ : Token).literal = some (.keyName w) ∧
    ∀ k u v, RunsOn w k u v →
      scan w = ((scan v).mapError (ScanError.shift u.utf8ByteSize)).map (⟨k, u⟩ :: ·) := by
  refine ⟨⟨fun hscan k u v h ↦ ?_, fun h ↦ ?_⟩, rfl, fun k u v h ↦ h.scan_eq hw hnot⟩
  · -- The first token would be the keyword.
    have hk := isWord_of_keyword? h.keyword
    rw [h.scan_eq hw hnot] at hscan
    cases hv : scan v with
    | error e =>
      rw [hv] at hscan
      cases hscan
    | ok ts =>
      rw [hv] at hscan
      obtain ⟨⟨rfl, -⟩, -⟩ : (k = .keyName ∧ u = w) ∧ ts = [] := by
        simpa [Except.mapError, Except.map] using hscan
      cases hk
  · rw [scan_of_first? (first?_name hw hnot h)]
    simp [ofRaw, Except.map]

/-- The point and the hyphen in `trueType-1.b` stand behind no keyword, that in `mod-5` does. -/
theorem scan_name_lookalike : IsName "trueType-1.b" ∧ keyword? "trueType-1.b" = none ∧
    scan "trueType-1.b" = .ok [⟨.keyName, "trueType-1.b"⟩] ∧
    (∀ k u v, ¬ RunsOn "trueType-1.b" k u v) ∧
    IsName "mod-5" ∧ keyword? "mod-5" = none ∧ RunsOn "mod-5" .modulo "mod" "-5" ∧
    scan "mod-5" = .ok [⟨.modulo, "mod"⟩, ⟨.integer, "-5"⟩] := by
  have hw : IsName "trueType-1.b" := by decide
  have hnot : keyword? "trueType-1.b" = none := by decide
  have hscan : scan "trueType-1.b" = .ok [⟨.keyName, "trueType-1.b"⟩] := by decide +kernel
  have hw' : IsName "mod-5" := by decide
  have hnot' : keyword? "mod-5" = none := by decide
  have hcut : RunsOn "mod-5" .modulo "mod" "-5" := ⟨rfl, rfl, .inr rfl⟩
  have hrest : scan "-5" = .ok [⟨.integer, "-5"⟩] := by decide +kernel
  refine ⟨hw, hnot, hscan, (scan_name_iff hw hnot).1.1 hscan, hw', hnot', hcut, ?_⟩
  rw [(scan_name_iff hw' hnot').2.2 _ _ _ hcut, hrest]
  rfl

/-- A name is cut behind `true`, and no token starts with the point that follows. -/
theorem scan_name_cut : IsName "true.x" ∧ keyword? "true.x" = none ∧
    scan "true.x" = .error (.unrecognized 4 ".x") ∧
    scan "true.x" ≠ .ok [⟨.keyName, "true.x"⟩] := by
  have hscan : scan "true.x" = .error (.unrecognized 4 ".x") := by decide +kernel
  exact ⟨by decide, by decide, hscan, fun h ↦ nomatch hscan.symm.trans h⟩

end PdfSchema.Token
