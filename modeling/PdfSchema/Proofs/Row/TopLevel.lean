import Mathlib.Data.List.Infix
import PdfSchema.Proofs.Text.Trim
import PdfSchema.Row.Cell

namespace PdfSchema.Cell

/-- The number of brackets and parentheses, counted together, that are open at the end of `s`. It is
negative if more are closed than were opened. -/
def depth (s : List Char) : Int := s.count '[' + s.count '(' - s.count ']' - s.count ')'

/-- The places of the commas in `s` at depth `d`. -/
def commasAt (d : Int) (s : List Char) : List Nat :=
  (List.range s.length).filter fun i ↦ s[i]? = some ',' ∧ depth (s.take i) = d

/-- The texts before, between and after the characters of `s` at the places `places`. -/
def segments (s : List Char) (places : List Nat) : List (List Char) :=
  List.zipWith (fun start stop ↦ (s.take stop).drop start)
    (0 :: places.map (· + 1)) (places ++ [s.length])

/-- Nothing is closed that is not open, and in the end nothing is open. -/
structure IsBalanced (s : List Char) : Prop where
  nonneg : ∀ b, b <+: s → 0 ≤ depth b
  closed : depth s = 0

instance : DecidablePred IsBalanced := fun s ↦
  decidable_of_iff ((∀ b ∈ s.inits, 0 ≤ depth b) ∧ depth s = 0) <| by
    simp only [List.mem_inits]
    exact ⟨fun h ↦ ⟨h.1, h.2⟩, fun h ↦ ⟨h.nonneg, h.closed⟩⟩

/-- Pieces that commas keep apart: no comma in them is at depth zero, and where another piece
follows all is closed that was opened. -/
structure Separate (pieces : List (List Char)) : Prop where
  commas : ∀ p ∈ pieces, commasAt 0 p = []
  closed : pieces.Pairwise fun p _ ↦ depth p = 0

section Depth

variable {d : Int} {s : List Char}

theorem depth_append (s t : List Char) : depth (s ++ t) = depth s + depth t := by
  simp only [depth, List.count_append]
  omega

theorem depth_cons (c : Char) (s : List Char) : depth (c :: s) = depth [c] + depth s :=
  depth_append [c] s

theorem depth_eq_zero (h : ∀ c ∈ s, c ∉ ['[', ']', '(', ')']) : depth s = 0 := by
  have hcount {a : Char} (ha : a ∈ ['[', ']', '(', ')']) : s.count a = 0 :=
    List.count_eq_zero.2 fun hc ↦ h a hc ha
  simp [depth, hcount]

theorem depth_of_isBlank (h : ∀ c ∈ s, Text.isBlank c = true) : depth s = 0 := by
  refine depth_eq_zero fun c hc hbracket ↦ ?_
  have hblank := h c hc
  simp only [List.mem_cons, List.not_mem_nil, or_false] at hbracket
  rcases hbracket with rfl | rfl | rfl | rfl <;> exact absurd hblank (by decide)

theorem depth_trimmed (s : List Char) : depth (Text.trimmed s) = depth s := by
  obtain ⟨b, e, hs, hb, he⟩ := Text.exists_eq_append_trimmed s
  conv_rhs => rw [hs, depth_append, depth_append, depth_of_isBlank hb, depth_of_isBlank he]
  omega

theorem commasAt_cons (d : Int) (c : Char) (s : List Char) : commasAt d (c :: s) =
    (if c = ',' ∧ d = 0 then [0] else []) ++ (commasAt (d - depth [c]) s).map (· + 1) := by
  have hrest : (fun i ↦ decide ((c :: s)[i]? = some ',' ∧ depth ((c :: s).take i) = d)) ∘ Nat.succ =
      fun i ↦ decide (s[i]? = some ',' ∧ depth (s.take i) = d - depth [c]) := by
    funext i
    have hdepth : depth [c] + depth (s.take i) = d ↔ depth (s.take i) = d - depth [c] := by omega
    simp only [Function.comp_apply, Nat.succ_eq_add_one, List.getElem?_cons_succ,
      List.take_succ_cons, depth_cons c (s.take i), hdepth]
  rw [commasAt, List.length_cons, List.range_succ_eq_map, List.filter_cons, List.filter_map, hrest]
  have hzero : (0 = d) = (d = 0) := propext eq_comm
  by_cases h : c = ',' ∧ d = 0 <;> simp [h, hzero, depth, commasAt]

theorem commasAt_eq_nil_iff :
    commasAt d s = [] ↔ ∀ before after, s = before ++ ',' :: after → depth before ≠ d := by
  simp only [commasAt, List.filter_eq_nil_iff, List.mem_range, decide_eq_true_eq, not_and]
  constructor
  · rintro h before after rfl
    simpa using h before.length (by simp) (by simp)
  · intro h i hi hcomma
    obtain ⟨hi, hc⟩ := List.getElem?_eq_some_iff.1 hcomma
    refine h (s.take i) (s.drop (i + 1)) ?_
    rw [← hc, ← List.drop_eq_getElem_cons hi, List.take_append_drop]

theorem commasAt_eq_nil (h : ',' ∉ s) : commasAt d s = [] := by
  rw [commasAt_eq_nil_iff]
  rintro before after rfl
  exact absurd (by simp) h

theorem commasAt_trimmed (h : commasAt d s = []) : commasAt d (Text.trimmed s) = [] := by
  obtain ⟨b, e, hs, hb, -⟩ := Text.exists_eq_append_trimmed s
  rw [commasAt_eq_nil_iff] at h ⊢
  intro before after htrimmed
  have hbefore : depth (b ++ before) ≠ d := h (b ++ before) (after ++ e) <| by
    rw [hs, htrimmed]
    simp
  rwa [depth_append, depth_of_isBlank hb, Int.zero_add] at hbefore

end Depth

section Pieces

variable {d : Int} {c : Char} {s : List Char}

theorem topLevelPieces_ne_nil (d : Int) (s : List Char) : topLevelPieces d s ≠ [] := by
  cases s with
  | nil => exact List.cons_ne_nil _ _
  | cons c s =>
    rw [topLevelPieces]
    split
    · exact List.cons_ne_nil _ _
    · dsimp only
      split <;> exact List.cons_ne_nil _ _

theorem topLevelPieces_cons (d : Int) (c : Char) (s : List Char) : topLevelPieces d (c :: s) =
    if c = ',' ∧ d = 0 then [] :: topLevelPieces d s
    else (topLevelPieces (d + depth [c]) s).modifyHead (c :: ·) := by
  have hdepth : (if c = '[' ∨ c = '(' then d + 1 else if c = ']' ∨ c = ')' then d - 1 else d) =
      d + depth [c] := by
    split_ifs with hopens hcloses
    · rcases hopens with rfl | rfl <;> rfl
    · rcases hcloses with rfl | rfl <;> rfl
    · rw [depth_eq_zero (by simp; tauto), Int.add_zero]
  rw [topLevelPieces, hdepth]
  obtain ⟨p, ps, hs⟩ := List.exists_cons_of_ne_nil (topLevelPieces_ne_nil (d + depth [c]) s)
  simp only [hs, List.modifyHead_cons]

theorem intercalate_topLevelPieces (d : Int) (s : List Char) :
    [','].intercalate (topLevelPieces d s) = s := by
  induction s generalizing d with
  | nil => rfl
  | cons c s ih =>
    rw [topLevelPieces_cons]
    split_ifs with hc
    · obtain ⟨p, ps, hs⟩ := List.exists_cons_of_ne_nil (topLevelPieces_ne_nil d s)
      rw [hs, List.intercalate_cons_cons, ← hs, ih, hc.1]
      rfl
    · obtain ⟨p, ps, hs⟩ := List.exists_cons_of_ne_nil (topLevelPieces_ne_nil (d + depth [c]) s)
      have hrest := hs ▸ ih (d + depth [c])
      rw [hs, List.modifyHead_cons]
      cases ps <;> simpa [List.intercalate_cons_cons] using hrest

theorem zipWith_cons (c : Char) (s : List Char) (starts stops : List Nat) :
    List.zipWith (fun start stop ↦ ((c :: s).take stop).drop start)
        (starts.map (· + 1)) (stops.map (· + 1)) =
      List.zipWith (fun start stop ↦ (s.take stop).drop start) starts stops := by
  rw [List.zipWith_map]
  rfl

theorem segments_cut (c : Char) (s : List Char) (places : List Nat) :
    segments (c :: s) (0 :: places.map (· + 1)) = [] :: segments s places := by
  have hrest := zipWith_cons c s (0 :: places.map (· + 1)) (places ++ [s.length])
  simpa [segments] using hrest

theorem segments_keep (c : Char) (s : List Char) (places : List Nat) :
    segments (c :: s) (places.map (· + 1)) = (segments s places).modifyHead (c :: ·) := by
  cases places with
  | nil => simp [segments]
  | cons i places =>
    have hrest := zipWith_cons c s ((i + 1) :: places.map (· + 1)) (places ++ [s.length])
    simpa [segments] using hrest

/-- The running count of what is open finds the commas at depth zero. -/
theorem topLevelPieces_eq_segments (d : Int) (s : List Char) :
    topLevelPieces d s = segments s (commasAt (-d) s) := by
  -- With `d` open before `s`, depth zero is where `s` alone has closed `d` more than it opened.
  induction s generalizing d with
  | nil => rfl
  | cons c s ih =>
    rw [topLevelPieces_cons, commasAt_cons]
    by_cases hc : c = ',' ∧ d = 0
    · obtain ⟨rfl, rfl⟩ := hc
      rw [if_pos ⟨rfl, rfl⟩, if_pos ⟨rfl, rfl⟩, List.singleton_append, segments_cut, ih]
      rfl
    · rw [if_neg hc, if_neg (by rwa [Int.neg_eq_zero]), List.nil_append, segments_keep, ih,
        Int.neg_add, Int.sub_eq_add_neg]

theorem topLevelPieces_eq_singleton (h : commasAt (-d) s = []) : topLevelPieces d s = [s] := by
  rw [topLevelPieces_eq_segments, h]
  simp [segments]

theorem commasAt_cons_eq_nil_iff : commasAt d (c :: s) = [] ↔
    ¬ (c = ',' ∧ d = 0) ∧ commasAt (d - depth [c]) s = [] := by
  rw [commasAt_cons, List.append_eq_nil_iff, List.map_eq_nil_iff, ite_eq_right_iff]
  simp only [List.cons_ne_nil, imp_false]

theorem topLevelPieces_append_comma (h : commasAt (-d) s = []) (hs : depth s = -d)
    (t : List Char) : topLevelPieces d (s ++ ',' :: t) = s :: topLevelPieces 0 t := by
  induction s generalizing d with
  | nil =>
    have hd : (0 : Int) = -d := hs
    obtain rfl : d = 0 := by omega
    rw [List.nil_append, topLevelPieces_cons, if_pos ⟨rfl, rfl⟩]
  | cons c s ih =>
    obtain ⟨hc, h⟩ := commasAt_cons_eq_nil_iff.1 h
    rw [Int.neg_eq_zero] at hc
    rw [depth_cons] at hs
    rw [List.cons_append, topLevelPieces_cons, if_neg hc, ih (d := d + depth [c])]
    · rfl
    · rwa [Int.neg_add, ← Int.sub_eq_add_neg]
    · omega

end Pieces

section Separate

variable {d : Int} {p s : List Char} {ps : List (List Char)}

theorem separate_cons_iff : Separate (p :: ps) ↔
    commasAt 0 p = [] ∧ (ps ≠ [] → depth p = 0) ∧ Separate ps := by
  constructor
  · rintro ⟨hcommas, hclosed⟩
    obtain ⟨hp, hps⟩ := List.forall_mem_cons.1 hcommas
    obtain ⟨hdepth, hclosed⟩ := List.pairwise_cons.1 hclosed
    refine ⟨hp, fun hne ↦ ?_, hps, hclosed⟩
    obtain ⟨q, hq⟩ := List.exists_mem_of_ne_nil ps hne
    exact hdepth q hq
  · rintro ⟨hp, hdepth, hps, hclosed⟩
    refine ⟨List.forall_mem_cons.2 ⟨hp, hps⟩, List.pairwise_cons.2 ⟨fun q hq ↦ ?_, hclosed⟩⟩
    exact hdepth (List.ne_nil_of_mem hq)

theorem separate_of_topLevelPieces (h : topLevelPieces d s = p :: ps) :
    commasAt (-d) p = [] ∧ (ps ≠ [] → depth p = -d) ∧ Separate ps := by
  induction s generalizing d p ps with
  | nil =>
    cases h
    exact ⟨rfl, fun hne ↦ absurd rfl hne, List.forall_mem_nil _, .nil⟩
  | cons c s ih =>
    rw [topLevelPieces_cons] at h
    by_cases hc : c = ',' ∧ d = 0
    · obtain ⟨rfl, rfl⟩ := hc
      rw [if_pos ⟨rfl, rfl⟩] at h
      cases h
      obtain ⟨q, qs, hs⟩ := List.exists_cons_of_ne_nil (topLevelPieces_ne_nil 0 s)
      rw [hs]
      exact ⟨rfl, fun _ ↦ rfl, separate_cons_iff.2 (ih hs)⟩
    · rw [if_neg hc] at h
      obtain ⟨q, qs, hs⟩ := List.exists_cons_of_ne_nil (topLevelPieces_ne_nil (d + depth [c]) s)
      rw [hs] at h
      cases h
      obtain ⟨hcommas, hdepth, hqs⟩ := ih hs
      rw [Int.neg_add, ← Int.sub_eq_add_neg] at hcommas
      refine ⟨commasAt_cons_eq_nil_iff.2 ⟨by rwa [Int.neg_eq_zero], hcommas⟩, fun hne ↦ ?_, hqs⟩
      have hq := hdepth hne
      rw [depth_cons]
      omega

theorem separate_topLevelPieces (s : List Char) : Separate (topLevelPieces 0 s) := by
  obtain ⟨p, ps, hs⟩ := List.exists_cons_of_ne_nil (topLevelPieces_ne_nil 0 s)
  rw [hs]
  exact separate_cons_iff.2 (separate_of_topLevelPieces hs)

theorem Separate.topLevelPieces_intercalate (h : Separate (p :: ps)) :
    topLevelPieces 0 ([','].intercalate (p :: ps)) = p :: ps := by
  induction ps generalizing p with
  | nil =>
    rw [List.intercalate_singleton, topLevelPieces_eq_singleton (separate_cons_iff.1 h).1]
  | cons q ps ih =>
    obtain ⟨hcommas, hdepth, hrest⟩ := separate_cons_iff.1 h
    have hp : depth p = 0 := hdepth (List.cons_ne_nil q ps)
    rw [List.intercalate_cons_cons, List.append_assoc, List.singleton_append,
      topLevelPieces_append_comma hcommas hp, ih hrest]

end Separate

namespace IsBalanced

variable {s t : List Char} {ps : List (List Char)}

theorem of_append (h : IsBalanced (s ++ t)) (hs : depth s = 0) :
    IsBalanced s ∧ IsBalanced t := by
  refine ⟨⟨fun b hb ↦ h.nonneg b (hb.trans (List.prefix_append s t)), hs⟩, fun b hb ↦ ?_, ?_⟩
  · have hnonneg := h.nonneg (s ++ b) ((List.prefix_append_right_inj s).2 hb)
    rwa [depth_append, hs, Int.zero_add] at hnonneg
  · have hclosed := h.closed
    rwa [depth_append, hs, Int.zero_add] at hclosed

theorem trimmed (h : IsBalanced s) : IsBalanced (Text.trimmed s) := by
  have hclosed : depth (Text.trimmed s) = 0 := (depth_trimmed s).trans h.closed
  obtain ⟨b, e, hs, hb, -⟩ := Text.exists_eq_append_trimmed s
  rw [hs, List.append_assoc] at h
  exact (of_append (of_append h (depth_of_isBlank hb)).2 hclosed).1

theorem of_intercalate (h : IsBalanced ([','].intercalate ps)) (hps : Separate ps) :
    ∀ p ∈ ps, IsBalanced p := by
  induction ps with
  | nil => exact fun _ hp ↦ nomatch hp
  | cons p ps ih =>
    obtain ⟨-, hdepth, hps⟩ := separate_cons_iff.1 hps
    cases ps with
    | nil => simpa using h
    | cons q ps =>
      rw [List.intercalate_cons_cons, List.append_assoc] at h
      obtain ⟨hp, hrest⟩ := of_append h (hdepth (List.cons_ne_nil q ps))
      exact List.forall_mem_cons.2 ⟨hp, ih (of_append hrest rfl).2 hps⟩

end IsBalanced

section Items

variable {ws : List String}

theorem toList_trim_ofList (p : List Char) :
    (Text.trim (String.ofList p)).toList = Text.trimmed p := by
  rw [Text.trim, String.toList_ofList, String.toList_ofList]

theorem separate_items (s : String) : Separate ((items s).map String.toList) := by
  have hpieces := separate_topLevelPieces s.toList
  constructor
  · intro v hv
    obtain ⟨w, hw, rfl⟩ := List.mem_map.1 hv
    obtain ⟨p, hp, rfl⟩ := List.mem_map.1 (List.mem_filter.1 hw).1
    rw [toList_trim_ofList]
    exact commasAt_trimmed (hpieces.commas p hp)
  · refine List.pairwise_map.2 (List.Pairwise.filter _ (List.pairwise_map.2 ?_))
    refine hpieces.closed.imp fun hp ↦ ?_
    rwa [toList_trim_ofList, depth_trimmed]

theorem items_intercalate_of_separate (h : Separate (ws.map String.toList))
    (hws : ∀ w ∈ ws, Text.trim w = w ∧ w ≠ "") : items (",".intercalate ws) = ws := by
  cases ws with
  | nil => rfl
  | cons w ws =>
    have hpieces : topLevelPieces 0 (",".intercalate (w :: ws)).toList =
        (w :: ws).map String.toList := by
      rw [String.toList_intercalate]
      exact h.topLevelPieces_intercalate
    have htrim : ((w :: ws).map String.toList).map (fun p ↦ Text.trim (String.ofList p)) =
        w :: ws := by
      rw [List.map_map, List.map_congr_left (g := id), List.map_id]
      intro v hv
      rw [Function.comp_apply, String.ofList_toList, (hws v hv).1, id]
    rw [items, hpieces, htrim, List.filter_eq_self]
    exact fun v hv ↦ decide_eq_true (hws v hv).2

theorem isBalanced_of_mem_items {s w : String} (h : IsBalanced s.toList) (hw : w ∈ items s) :
    IsBalanced w.toList := by
  obtain ⟨p, hp, rfl⟩ := List.mem_map.1 (List.mem_filter.1 hw).1
  rw [← intercalate_topLevelPieces 0 s.toList] at h
  rw [toList_trim_ofList]
  exact (h.of_intercalate (separate_topLevelPieces s.toList) p hp).trimmed

/-- The items of a list are the texts between its commas at depth zero, trimmed, in their order and
without those that are blank. No item has such a comma in it, and the items with commas between them
are a list of the same items. If the list is balanced, then so is each item. -/
theorem items_exact (s : String) :
    items s = ((segments s.toList (commasAt 0 s.toList)).map fun p ↦
        Text.trim (String.ofList p)).filter (· ≠ "") ∧
      (∀ w ∈ items s, commasAt 0 w.toList = []) ∧
      items (",".intercalate (items s)) = items s ∧
      (IsBalanced s.toList → ∀ w ∈ items s, IsBalanced w.toList) := by
  have hseparate := separate_items s
  refine ⟨?_, fun w hw ↦ ?_, ?_, fun h w hw ↦ isBalanced_of_mem_items h hw⟩
  · rw [items, topLevelPieces_eq_segments]
    rfl
  · exact hseparate.commas w.toList (List.mem_map_of_mem hw)
  · refine items_intercalate_of_separate hseparate fun w hw ↦ ?_
    obtain ⟨hpiece, hne⟩ := List.mem_filter.1 hw
    obtain ⟨p, -, rfl⟩ := List.mem_map.1 hpiece
    exact ⟨Text.trim_trim _, of_decide_eq_true hne⟩

def nestedList : String := " [1, (a,2)] ,, N(x, [y])"

theorem items_exact_nested : IsBalanced nestedList.toList ∧
    items nestedList = ["[1, (a,2)]", "N(x, [y])"] ∧
    items "[1, (a,2)],N(x, [y])" = ["[1, (a,2)]", "N(x, [y])"] ∧
    ∀ w ∈ ["[1, (a,2)]", "N(x, [y])"], commasAt 0 w.toList = [] ∧ IsBalanced w.toList := by
  have hbalanced : IsBalanced nestedList.toList := by decide +kernel
  have hsegments : ((segments nestedList.toList (commasAt 0 nestedList.toList)).map fun p ↦
      Text.trim (String.ofList p)).filter (· ≠ "") = ["[1, (a,2)]", "N(x, [y])"] := by
    decide +kernel
  obtain ⟨hitems, hcommas, hagain, hitem⟩ := items_exact nestedList
  rw [hitems, hsegments] at hcommas hagain hitem
  exact ⟨hbalanced, hitems.trans hsegments, hagain,
    fun w hw ↦ ⟨hcommas w hw, hitem hbalanced w hw⟩⟩

end Items

end PdfSchema.Cell
