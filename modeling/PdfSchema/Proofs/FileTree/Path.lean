import Mathlib.Data.List.TakeWhile
import Mathlib.Data.Nat.Notation
import PdfSchema.FileTree.Basic
import PdfSchema.Proofs.Text.Split

namespace PdfSchema

namespace Path

structure IsEntry (name : String) : Prop where
  slash : '/' ∉ name.toList
  ne_empty : name ≠ ""
  ne_here : name ≠ "."
  ne_above : name ≠ ".."

variable {directory name name' stem stem' path p q : String} {front ending : List Char}

theorem names_empty : names "" = [] := by simp [names, Text.splitBy]

theorem names_append_slash (p q : String) : names (p ++ "/" ++ q) = names p ++ names q := by
  have hlist : (p ++ "/" ++ q).toList = p.toList ++ '/' :: q.toList := by simp
  have hslash : isSeparator '/' = true := rfl
  simp only [names, hlist, Text.splitBy_eq_splitOnP,
    List.splitOnP_append_cons p.toList q.toList hslash, List.filter_append, List.map_append]

theorem IsEntry.names_eq (h : IsEntry name) : names name = [name] := by
  have hsep : ∀ c ∈ name.toList, isSeparator c = false := by
    intro c hc
    rw [isSeparator, decide_eq_false_iff_not]
    rintro rfl
    exact h.slash hc
  simp [names, Text.splitBy_eq_splitOnP, List.splitOnP_eq_singleton hsep, h.ne_empty]

theorem slash_notMem_of_mem_names (h : name ∈ names path) :
    '/' ∉ name.toList := by
  obtain ⟨piece, hpiece, rfl⟩ := List.mem_map.1 h
  rw [String.toList_ofList]
  intro hmem
  have hsep := Text.sep_eq_false_of_mem_splitBy (List.mem_filter.1 hpiece).1 '/' hmem
  exact absurd hsep (by decide)

theorem exists_of_wantsDirectory (h : wantsDirectory p = true) : ∃ q, p = q ++ "/" := by
  obtain ⟨s, hs⟩ := List.getLast?_eq_some_iff.1 (of_decide_eq_true h)
  refine ⟨String.ofList s, String.toList_injective ?_⟩
  simp [hs]

theorem IsEntry.isAbsolute_eq_false (h : IsEntry name) : isAbsolute name = false := by
  rw [isAbsolute, decide_eq_false_iff_not]
  exact fun hhead ↦ h.slash (List.mem_of_head? hhead)

theorem isAbsolute_append (hp : p ≠ "") (q : String) : isAbsolute (p ++ q) = isAbsolute p := by
  obtain ⟨c, s, hs⟩ := List.exists_cons_of_ne_nil fun hnil ↦ hp (String.toList_eq_nil_iff.1 hnil)
  simp [isAbsolute, hs]

theorem join_empty (name : String) : join "" name = name := by simp [join]

theorem join_of_ne_empty (hd : directory ≠ "") (h : IsEntry name) :
    join directory name =
      if wantsDirectory directory then directory ++ name else directory ++ "/" ++ name := by
  simp [join, h.isAbsolute_eq_false, hd]

theorem names_join (directory : String) (h : IsEntry name) :
    names (join directory name) = names directory ++ [name] := by
  by_cases hd : directory = ""
  · rw [hd, join_empty, h.names_eq, names_empty, List.nil_append]
  · rw [join_of_ne_empty hd h]
    split
    · rename_i hwants
      obtain ⟨p, rfl⟩ := exists_of_wantsDirectory hwants
      have hp : names (p ++ "/") = names p := by
        simpa only [String.append_empty, names_empty, List.append_nil] using names_append_slash p ""
      rw [names_append_slash, h.names_eq, hp]
    · rw [names_append_slash, h.names_eq]

theorem isAbsolute_join (directory : String) (h : IsEntry name) :
    isAbsolute (join directory name) = isAbsolute directory := by
  by_cases hd : directory = ""
  · rw [hd, join_empty, h.isAbsolute_eq_false]
    rfl
  · rw [join_of_ne_empty hd h]
    split
    · exact isAbsolute_append hd name
    · rw [String.append_assoc, isAbsolute_append hd]

theorem wantsDirectory_append (h : IsEntry name) (p : String) :
    wantsDirectory (p ++ name) = false := by
  have hne : name.toList ≠ [] := fun hnil ↦ h.ne_empty (String.toList_eq_nil_iff.1 hnil)
  have hlast : name.toList.getLast? = some (name.toList.getLast hne) :=
    List.getLast?_eq_some_getLast hne
  rw [wantsDirectory, decide_eq_false_iff_not, String.toList_append, List.getLast?_append, hlast,
    Option.some_or, Option.some_inj]
  exact fun hslash ↦ h.slash (hslash ▸ List.getLast_mem hne)

theorem wantsDirectory_join (directory : String) (h : IsEntry name) :
    wantsDirectory (join directory name) = false := by
  by_cases hd : directory = ""
  · rw [hd, join_empty, ← String.empty_append (s := name)]
    exact wantsDirectory_append h ""
  · rw [join_of_ne_empty hd h]
    split
    · exact wantsDirectory_append h directory
    · exact wantsDirectory_append h _

/-- Whether a text is the stem of a file name: what stands before the last point of the name, or all
of it if there is no point but at its start. -/
inductive IsStem : String → String → Prop
  | cut {stem name : String} {ending : List Char}
      (hname : name.toList = stem.toList ++ '.' :: ending) (hstem : stem ≠ "")
      (hending : '.' ∉ ending) : IsStem stem name
  | whole {name : String} (h : '.' ∉ name.toList.tail) : IsStem name name

theorem stemOfName_of_eq_append (hname : name.toList = front ++ '.' :: ending)
    (hending : '.' ∉ ending) :
    stemOfName name = if front = [] then name else String.ofList front := by
  have hskip : ∀ c ∈ ending.reverse, decide (c ≠ '.') = true := by
    rintro c hc
    rw [decide_eq_true_iff]
    rintro rfl
    exact hending (List.mem_reverse.1 hc)
  have hdrop : name.toList.reverse.dropWhile (· ≠ '.') = '.' :: front.reverse := by
    rw [hname, List.reverse_append, List.reverse_cons, List.append_assoc,
      List.dropWhile_append_of_pos hskip]
    rfl
  simp only [stemOfName, hdrop, List.isEmpty_iff, List.reverse_eq_nil_iff, List.reverse_reverse]

theorem stemOfName_of_notMem (h : '.' ∉ name.toList) : stemOfName name = name := by
  have hdrop : name.toList.reverse.dropWhile (· ≠ '.') = [] := by
    rw [List.dropWhile_eq_nil_iff]
    rintro c hc
    rw [decide_eq_true_iff]
    rintro rfl
    exact h (List.mem_reverse.1 hc)
  simp only [stemOfName, hdrop]

theorem isStem_stemOfName (name : String) : IsStem (stemOfName name) name := by
  by_cases hmem : '.' ∈ name.toList
  · -- The last point is the first one from the other end.
    obtain ⟨ending, front, hname, hending⟩ :=
      List.eq_append_cons_of_mem (List.mem_reverse.2 hmem)
    replace hname : name.toList = front.reverse ++ '.' :: ending.reverse := by
      rw [← List.reverse_reverse name.toList, hname, List.reverse_append, List.reverse_cons,
        List.append_assoc, List.singleton_append]
    replace hending : '.' ∉ ending.reverse := by rwa [List.mem_reverse]
    rw [stemOfName_of_eq_append hname hending]
    split
    · rename_i hfront
      refine .whole ?_
      rwa [hname, hfront, List.nil_append, List.tail_cons]
    · rename_i hfront
      refine .cut (by rw [String.toList_ofList, hname]) (fun hempty ↦ hfront ?_) hending
      rw [← String.toList_ofList (l := front.reverse), hempty, String.toList_empty]
  · rw [stemOfName_of_notMem hmem]
    exact .whole fun htail ↦ hmem (List.mem_of_mem_tail htail)

theorem IsStem.eq_stemOfName (h : IsStem stem name) : stem = stemOfName name := by
  cases h with
  | cut hname hstem hending =>
    rw [stemOfName_of_eq_append hname hending, if_neg (String.toList_eq_nil_iff.not.2 hstem),
      String.ofList_toList]
  | whole h =>
    rcases hname : name.toList with _ | ⟨c, cs⟩
    · rw [stemOfName_of_notMem (by simp [hname])]
    · rw [hname, List.tail_cons] at h
      by_cases hc : c = '.'
      · have hfirst : name.toList = [] ++ '.' :: cs := by rw [hname, hc, List.nil_append]
        rw [stemOfName_of_eq_append hfirst h, if_pos rfl]
      · rw [stemOfName_of_notMem (by simpa [hname, Ne.symm hc] using h)]

theorem IsStem.unique (h : IsStem stem name) (h' : IsStem stem' name) : stem = stem' :=
  h.eq_stemOfName.trans h'.eq_stemOfName.symm

theorem IsStem.slash_notMem (h : IsStem stem name) (hslash : '/' ∉ name.toList) :
    '/' ∉ stem.toList := by
  cases h with
  | cut hname _ _ =>
    rw [hname] at hslash
    exact fun hmem ↦ hslash (List.mem_append_left _ hmem)
  | whole _ => exact hslash

/-- Whether the last name of a path, but for those that stand for the same directory, is the name of
a file. -/
structure IsFileName (path name : String) : Prop where
  last : ((names path).filter (· ≠ ".")).getLast? = some name
  ne_above : name ≠ ".."

theorem IsFileName.unique (h : IsFileName path name) (h' : IsFileName path name') : name = name' :=
  Option.some_inj.1 (h.last.symm.trans h'.last)

theorem IsFileName.stem?_eq (h : IsFileName path name) : stem? path = some (stemOfName name) := by
  unfold stem?
  rw [h.last]
  split
  · rename_i hlast
    exact absurd (Option.some_inj.1 hlast) h.ne_above
  · rfl

theorem exists_isFileName_of_stem? (h : stem? path = some stem) :
    ∃ name, IsFileName path name ∧ IsStem stem name := by
  unfold stem? at h
  split at h
  · cases h
  · rename_i hne
    obtain ⟨name, hlast, rfl⟩ := Option.map_eq_some_iff.1 h
    refine ⟨name, ⟨hlast, ?_⟩, isStem_stemOfName name⟩
    rintro rfl
    exact hne hlast

theorem slash_notMem_of_stem? (h : stem? path = some stem) : '/' ∉ stem.toList := by
  obtain ⟨name, hname, hstem⟩ := exists_isFileName_of_stem? h
  have hmem := (List.mem_filter.1 (List.mem_of_getLast? hname.last)).1
  exact hstem.slash_notMem (slash_notMem_of_mem_names hmem)

end Path

namespace FileTree

variable {t : FileTree} {directory name : String} {l : Location} {e : FileError}

theorem ne_alreadyExists_of_walk {names : List String} (h : t.walk l names = .error e) :
    e ≠ .alreadyExists := by
  induction names generalizing l with
  | nil => cases h
  | cons name names ih =>
    unfold walk at h
    repeat' split at h
    all_goals first | exact ih h | (cases h; decide)

structure LeadsTo (t : FileTree) (directory : String) (base : Location) : Prop where
  walk : t.walk (t.start directory) (Path.names directory) = .ok base
  isDirectory : t.isDirectory base = true

theorem LeadsTo.unique {base base' : Location} (h : t.LeadsTo directory base)
    (h' : t.LeadsTo directory base') : base = base' := Except.ok.inj (h.walk.symm.trans h'.walk)

theorem place_join (t : FileTree) (directory : String) (h : Path.IsEntry name) :
    t.place (Path.join directory name) =
      if hasZeroByte (Path.join directory name) then .error .zeroByte
      else match t.walk (t.start directory) (Path.names directory) with
        | .error e => .error e
        | .ok base =>
          if t.isDirectory base then
            if isTooLong name then .error .nameTooLong else .ok (base ++ [name])
          else .error (if (t.get? base).isSome then .notADirectory else .notFound) := by
  have hstart : t.start (Path.join directory name) = t.start directory := by
    rw [start, Path.isAbsolute_join directory h, start]
  unfold place
  simp only [Path.names_join directory h, List.getLast?_concat, List.dropLast_concat, hstart,
    Path.wantsDirectory_join directory h, h.ne_here, h.ne_above, if_false, Bool.false_eq_true]
  cases hasZeroByte (Path.join directory name) with
  | true => rfl
  | false =>
    cases t.walk (t.start directory) (Path.names directory) with
    | error e => rfl
    | ok base =>
      change (if !t.isDirectory base then _ else _) = if t.isDirectory base then _ else _
      cases t.isDirectory base with
      | false => rfl
      | true => cases isTooLong name <;> rfl

theorem create_eq (t : FileTree) (path : String) (bytes : List UInt8) :
    t.create path bytes = match t.place path with
      | .error e => .error e
      | .ok l =>
        if (t.get? l).isSome then .error .alreadyExists else .ok (t.put l (.file bytes)) := by
  unfold create
  cases t.place path with
  | error e => rfl
  | ok l =>
    change (if (t.get? l).isSome then _ else _) = if (t.get? l).isSome then _ else _
    cases (t.get? l).isSome <;> rfl

/-- A file can be created under a name in a directory unless the name is taken, or something else is
wrong. -/
theorem create_join_cases (t : FileTree) (directory : String) (h : Path.IsEntry name)
    (bytes : List UInt8) :
    (∃ e, t.create (Path.join directory name) bytes = .error e ∧ e ≠ .alreadyExists) ∨
      ∃ base, t.LeadsTo directory base ∧ t.create (Path.join directory name) bytes =
        if (t.get? (base ++ [name])).isSome then .error .alreadyExists
        else .ok (t.put (base ++ [name]) (.file bytes)) := by
  rw [create_eq, place_join t directory h]
  cases hasZeroByte (Path.join directory name) with
  | true => exact .inl ⟨_, rfl, by decide⟩
  | false =>
    cases hwalk : t.walk (t.start directory) (Path.names directory) with
    | error e => exact .inl ⟨e, rfl, ne_alreadyExists_of_walk hwalk⟩
    | ok base =>
      cases hbase : t.isDirectory base with
      | false =>
        refine .inl ⟨if (t.get? base).isSome then .notADirectory else .notFound, ?_, ?_⟩
        · simp [hbase]
        · split <;> decide
      | true =>
        cases isTooLong name with
        | true =>
          refine .inl ⟨.nameTooLong, ?_, by decide⟩
          simp [hbase]
        | false =>
          refine .inr ⟨base, ⟨hwalk, hbase⟩, ?_⟩
          simp [hbase]

theorem of_create_join_eq_ok (h : Path.IsEntry name) {bytes : List UInt8} {t' : FileTree}
    (hok : t.create (Path.join directory name) bytes = .ok t') :
    ∃ base, t.LeadsTo directory base ∧ t.get? (base ++ [name]) = none ∧
      t' = t.put (base ++ [name]) (.file bytes) := by
  rcases t.create_join_cases directory h bytes with ⟨e, he, _⟩ | ⟨base, hbase, hcreate⟩
  · cases he.symm.trans hok
  · rw [hok] at hcreate
    split at hcreate
    · cases hcreate
    · rename_i hsome
      exact ⟨base, hbase, by simpa using hsome, Except.ok.inj hcreate⟩

theorem LeadsTo.isSome_of_alreadyExists {base : Location} (hbase : t.LeadsTo directory base)
    (h : Path.IsEntry name) {bytes : List UInt8}
    (he : t.create (Path.join directory name) bytes = .error .alreadyExists) :
    (t.get? (base ++ [name])).isSome := by
  rcases t.create_join_cases directory h bytes with ⟨e, he', hne⟩ | ⟨base', hbase', hcreate⟩
  · exact absurd (Except.error.inj (he'.symm.trans he)) hne
  · obtain rfl := hbase'.unique hbase
    rw [he] at hcreate
    split at hcreate
    · assumption
    · cases hcreate

end FileTree

end PdfSchema
