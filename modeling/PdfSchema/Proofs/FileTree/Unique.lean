import Mathlib.Data.List.Nodup
import Mathlib.Data.List.Perm.Subperm
import Mathlib.Data.Nat.Find
import PdfSchema.FileTree.Unique
import PdfSchema.Proofs.FileTree.Path
import PdfSchema.Proofs.Text.Numeral

namespace PdfSchema

namespace FileTree

variable {t t' t'' : FileTree} {l l' : Location} {directory stem : String} {bytes : List UInt8}

theorem get?_put (t : FileTree) (hl : l ≠ []) (n : FileNode) (k : Location) :
    (t.put l n).get? k = if k = l then some n else t.get? k := by
  unfold get? put
  cases k with
  | nil => simp [Ne.symm hl]
  | cons name k => simp [KeyedList.get?_put, eq_comm]

def AddsDirectories (t t' : FileTree) : Prop :=
  ∀ l, t'.get? l = t.get? l ∨ t.get? l = none ∧ t'.get? l = some .directory

namespace AddsDirectories

theorem refl (t : FileTree) : t.AddsDirectories t := fun _ ↦ .inl rfl

theorem trans (h : t.AddsDirectories t') (h' : t'.AddsDirectories t'') :
    t.AddsDirectories t'' := by
  intro l
  rcases h l with heq | ⟨hnone, hdirectory⟩
  · rw [← heq]
    exact h' l
  · refine .inr ⟨hnone, ?_⟩
    rcases h' l with heq | ⟨hnone', _⟩
    · rw [heq, hdirectory]
    · cases hnone'.symm.trans hdirectory

theorem kept (h : t.AddsDirectories t') {n : FileNode} (hn : t.get? l = some n) :
    t'.get? l = some n := by
  rcases h l with heq | ⟨hnone, _⟩
  · rw [heq, hn]
  · cases hnone.symm.trans hn

theorem get?_eq_file_iff (h : t.AddsDirectories t') :
    t'.get? l = some (.file bytes) ↔ t.get? l = some (.file bytes) := by
  refine ⟨fun hn ↦ ?_, h.kept⟩
  rcases h l with heq | ⟨_, hdirectory⟩
  · rw [← heq, hn]
  · cases hdirectory.symm.trans hn

theorem put (hnone : t.get? l = none) : t.AddsDirectories (t.put l .directory) := by
  intro k
  have hl : l ≠ [] := by
    rintro rfl
    cases hnone
  rw [get?_put t hl]
  split
  · rename_i heq
    exact .inr ⟨heq ▸ hnone, rfl⟩
  · exact .inl rfl

end AddsDirectories

theorem addsDirectories_makeWay (t : FileTree) (l : Location) (names : List String) :
    t.AddsDirectories (t.makeWay l names).1 := by
  induction names generalizing t l with
  | nil => exact .refl t
  | cons name names ih =>
    unfold makeWay
    split
    · exact ih t l
    split
    · exact ih t l.dropLast
    split
    · exact .refl t
    split
    · exact ih t _
    · exact .refl t
    · rename_i hnone
      exact (AddsDirectories.put hnone).trans (ih _ _)

theorem addsDirectories_makeDirectories (t : FileTree) (path : String) :
    t.AddsDirectories (t.makeDirectories path).1 := by
  unfold makeDirectories
  split
  · exact .refl t
  split
  · exact .refl t
  dsimp only
  split
  · exact addsDirectories_makeWay t _ _
  · have h := addsDirectories_makeWay t (t.start path)
      ((Path.names path).reverse.dropWhile (· = ".")).reverse.dropLast
    split
    · rename_i hmade
      rwa [hmade] at h
    · rename_i hmade
      rwa [hmade] at h

theorem numberedName_injective (stem : String) : Function.Injective (numberedName stem) := by
  intro n m h
  have hlist := congrArg String.toList h
  unfold numberedName at hlist
  by_cases hn : n = 0 <;> by_cases hm : m = 0 <;>
    simp only [hn, hm, if_true, if_false, String.toList_append, List.append_assoc,
      List.append_cancel_left_eq, List.append_cancel_right_eq] at hlist
  · rw [hn, hm]
  · have hlength := congrArg List.length hlist
    simp at hlength
  · have hlength := congrArg List.length hlist
    simp at hlength
  · exact toString_injective (String.toList_injective hlist)

theorem isEntry_numberedName (h : '/' ∉ stem.toList) (n : ℕ) :
    Path.IsEntry (numberedName stem n) := by
  have hlength : 4 ≤ (numberedName stem n).toList.length := by
    unfold numberedName
    split
    · simp
    · simp
      omega
  constructor
  case slash =>
    have hnumeral := slash_notMem_toString n
    unfold numberedName
    split <;> simp_all
  case ne_empty | ne_here | ne_above =>
    intro heq
    rw [heq] at hlength
    exact absurd hlength (by decide)

abbrev numberedPath (directory stem : String) (n : ℕ) : String :=
  Path.join directory (numberedName stem n)

-- The sides differ by one step of the search; comparing them does not need what it creates.
attribute [local irreducible] create in
theorem createFrom_succ (t : FileTree) (directory stem : String) (bytes : List UInt8)
    (n steps : ℕ) : t.createFrom directory stem bytes n (steps + 1) =
      match t.create (numberedPath directory stem n) bytes with
      | .ok t' => (t', .ok (numberedPath directory stem n))
      | .error .alreadyExists => t.createFrom directory stem bytes (n + 1) steps
      | .error e => (t, .error e) := rfl

theorem createFrom_eq_ok_iff {path : String} (n steps : ℕ) :
    t.createFrom directory stem bytes n steps = (t', .ok path) ↔
      ∃ k < steps, path = numberedPath directory stem (n + k) ∧
        t.create (numberedPath directory stem (n + k)) bytes = .ok t' ∧
        ∀ m < k, t.create (numberedPath directory stem (n + m)) bytes = .error .alreadyExists := by
  induction steps generalizing n with
  | zero =>
    have hnone : t.createFrom directory stem bytes n 0 = (t, .error .alreadyExists) := rfl
    simp [hnone]
  | succ steps ih =>
    have hadd (k : ℕ) : n + 1 + k = n + (k + 1) := by omega
    have ih := ih (n + 1)
    simp only [hadd] at ih
    -- The first name is the one that is found, or it is taken and the search goes on behind it.
    rw [createFrom_succ]
    simp only [Nat.exists_lt_succ_left, Nat.forall_lt_succ_left, Nat.add_zero]
    cases hcreate : t.create (numberedPath directory stem n) bytes with
    | ok t₁ => simp [eq_comm, and_comm]
    | error e =>
      cases e with
      | alreadyExists => simp [ih]
      | _ => simp

theorem exists_le_size (t : FileTree) {f : ℕ → Location} (hf : Function.Injective f)
    (hne : ∀ n, f n ≠ []) : ∃ n ≤ t.nodes.size, t.get? (f n) = none := by
  -- Otherwise there are more locations than nodes.
  by_contra hcontra
  push Not at hcontra
  have hsub : (List.range (t.nodes.size + 1)).map f ⊆ t.nodes.keys := by
    intro l hl
    obtain ⟨n, hn, rfl⟩ := List.mem_map.1 hl
    obtain ⟨node, hnode⟩ := Option.ne_none_iff_exists'.1
      (hcontra n (Nat.lt_succ_iff.1 (List.mem_range.1 hn)))
    rw [get?, if_neg (by simpa using hne n)] at hnode
    exact KeyedList.mem_keys_of_get?_eq_some hnode
  have hle := ((List.nodup_range.map hf).subperm hsub).length_le
  have hkeys : t.nodes.keys.length = t.nodes.size := List.length_map ..
  rw [List.length_map, List.length_range, hkeys] at hle
  omega

theorem exists_first (t : FileTree) (directory : String) (hstem : '/' ∉ stem.toList)
    (bytes : List UInt8) : ∃ n ≤ t.nodes.size,
      t.create (numberedPath directory stem n) bytes ≠ .error .alreadyExists ∧
      ∀ m < n, t.create (numberedPath directory stem m) bytes = .error .alreadyExists := by
  classical
  have hfree : ∃ n ≤ t.nodes.size,
      t.create (numberedPath directory stem n) bytes ≠ .error .alreadyExists := by
    by_contra hcontra
    push Not at hcontra
    -- If all names were taken, they would be so at locations in one directory.
    rcases t.create_join_cases directory (isEntry_numberedName hstem 0) bytes with
      ⟨e, he, hne⟩ | ⟨base, hbase, _⟩
    · exact hne (Except.error.inj (he.symm.trans (hcontra 0 (Nat.zero_le _))))
    · obtain ⟨n, hn, hnone⟩ := t.exists_le_size (f := fun n ↦ base ++ [numberedName stem n])
        (fun n m h ↦ numberedName_injective stem (List.singleton_inj.1 (List.append_cancel_left h)))
        (fun n ↦ by simp)
      have hsome := hbase.isSome_of_alreadyExists (isEntry_numberedName hstem n) (hcontra n hn)
      rw [hnone] at hsome
      cases hsome
  obtain ⟨hsize, hne⟩ := Nat.find_spec hfree
  refine ⟨Nat.find hfree, hsize, hne, fun m hm ↦ ?_⟩
  by_contra hm'
  exact Nat.find_min hfree hm ⟨Nat.le_trans (Nat.le_of_lt hm) hsize, hm'⟩

abbrev withDirectory (t : FileTree) (directory : String) : FileTree :=
  (t.makeDirectories directory).1

/-- Whether a file can be written under a numbered name: the directory can be made, and as long as
all names before are taken, nothing is wrong with a name but that it is taken as well. -/
structure Admits (t : FileTree) (directory stem : String) (bytes : List UInt8) : Prop where
  makeDirectories : (t.makeDirectories directory).2 = .ok ()
  create : ∀ n, (∀ m < n, (t.withDirectory directory).create (numberedPath directory stem m) bytes =
      .error .alreadyExists) → ∀ e,
    (t.withDirectory directory).create (numberedPath directory stem n) bytes = .error e →
      e = .alreadyExists

/-- Whether `t'` is `t` with a new file at `l`, under the first numbered name that is not taken in a
directory, which is made if it is missing. -/
structure NewFile (t : FileTree) (directory stem : String) (bytes : List UInt8) (l : Location)
    (t' : FileTree) : Prop where
  firstFree : ∃ base n, (t.withDirectory directory).LeadsTo directory base ∧
    l = base ++ [numberedName stem n] ∧ (t.withDirectory directory).get? l = none ∧
    ∀ m < n, ((t.withDirectory directory).get? (base ++ [numberedName stem m])).isSome
  eq_put : t' = (t.withDirectory directory).put l (.file bytes)

theorem NewFile.get? (h : t.NewFile directory stem bytes l t') (k : Location) :
    t'.get? k = if k = l then some (.file bytes) else (t.withDirectory directory).get? k := by
  obtain ⟨base, n, _, rfl, _⟩ := h.firstFree
  rw [h.eq_put, get?_put _ (by simp)]

theorem NewFile.unique (h : t.NewFile directory stem bytes l t')
    (h' : t.NewFile directory stem bytes l' t'') : l = l' ∧ t' = t'' := by
  obtain ⟨base, n, hbase, rfl, hnone, htaken⟩ := h.firstFree
  obtain ⟨base', n', hbase', rfl, hnone', htaken'⟩ := h'.firstFree
  obtain rfl := hbase.unique hbase'
  obtain rfl : n = n' := by
    rcases Nat.lt_trichotomy n n' with hlt | heq | hgt
    · exact absurd (htaken' n hlt) (by simp [hnone])
    · exact heq
    · exact absurd (htaken n' hgt) (by simp [hnone'])
  exact ⟨rfl, h.eq_put.trans h'.eq_put.symm⟩

theorem createUnique_of_makeDirectories (h : (t.makeDirectories directory).2 = .ok ()) :
    t.createUnique directory stem bytes = (t.withDirectory directory).createFrom directory stem
      bytes 0 ((t.withDirectory directory).nodes.size + 1) := by
  unfold createUnique withDirectory
  split
  · rename_i he
    rw [he] at h
    cases h
  · rename_i hok
    rw [hok]

theorem exists_newFile (h : t.Admits directory stem bytes) (hstem : '/' ∉ stem.toList) :
    ∃ t' path l, t.createUnique directory stem bytes = (t', .ok path) ∧
      t.NewFile directory stem bytes l t' := by
  obtain ⟨n, hsize, hne, htaken⟩ :=
    (t.withDirectory directory).exists_first directory hstem bytes
  cases hcreate : (t.withDirectory directory).create (numberedPath directory stem n) bytes with
  | error e => exact absurd (h.create n htaken e hcreate ▸ hcreate) hne
  | ok t' =>
    obtain ⟨base, hbase, hnone, ht'⟩ := of_create_join_eq_ok (isEntry_numberedName hstem n) hcreate
    refine ⟨t', numberedPath directory stem n, base ++ [numberedName stem n], ?_, ?_, ?_⟩
    · rw [createUnique_of_makeDirectories h.makeDirectories, createFrom_eq_ok_iff]
      exact ⟨n, Nat.lt_succ_iff.2 hsize, by rw [Nat.zero_add], by rw [Nat.zero_add, hcreate],
        by simpa only [Nat.zero_add] using htaken⟩
    · exact ⟨base, n, hbase, rfl, hnone,
        fun m hm ↦ hbase.isSome_of_alreadyExists (isEntry_numberedName hstem m) (htaken m hm)⟩
    · exact ht'

theorem admits_of_createUnique {path : String}
    (h : t.createUnique directory stem bytes = (t', .ok path)) :
    t.Admits directory stem bytes := by
  have hmade : (t.makeDirectories directory).2 = .ok () := by
    unfold createUnique at h
    split at h
    · cases h
    · rename_i hok
      rw [hok]
  rw [createUnique_of_makeDirectories hmade, createFrom_eq_ok_iff] at h
  obtain ⟨k, _, _, hok, htaken⟩ := h
  simp only [Nat.zero_add] at hok htaken
  refine ⟨hmade, fun n hn e he ↦ ?_⟩
  rcases Nat.lt_trichotomy n k with hlt | rfl | hgt
  · exact Except.error.inj (he.symm.trans (htaken n hlt))
  · cases he.symm.trans hok
  · cases (hn k hgt).symm.trans hok

/-- Whether `t'` is `t` with new files, and with directories for them. -/
structure Gains (t t' : FileTree) (files : List (Location × List UInt8)) : Prop where
  nodup : (files.map Prod.fst).Nodup
  new : ∀ x ∈ files, t.get? x.1 = none
  kept : ∀ l n, t.get? l = some n → t'.get? l = some n
  get?_eq_file_iff : ∀ l bytes, t'.get? l = some (.file bytes) ↔
    t.get? l = some (.file bytes) ∨ (l, bytes) ∈ files

theorem Gains.refl (t : FileTree) : t.Gains t [] where
  nodup := List.nodup_nil
  new x hx := absurd hx List.not_mem_nil
  kept _ _ hn := hn
  get?_eq_file_iff l bytes := by simp

theorem NewFile.gains {files : List (Location × List UInt8)}
    (h : t.NewFile directory stem bytes l t') (h' : t'.Gains t'' files) :
    t.Gains t'' ((l, bytes) :: files) := by
  have hadds := t.addsDirectories_makeDirectories directory
  obtain ⟨_, _, _, _, hnone, _⟩ := h.firstFree
  have hl : t'.get? l = some (.file bytes) := by rw [h.get?, if_pos rfl]
  have hne {k : Location} {n : FileNode} (hn : t.get? k = some n) : k ≠ l := by
    rintro rfl
    cases hnone.symm.trans (hadds.kept hn)
  have hkept {k : Location} {n : FileNode} (hn : t.get? k = some n) : t'.get? k = some n := by
    rw [h.get?, if_neg (hne hn)]
    exact hadds.kept hn
  constructor
  case nodup =>
    refine List.nodup_cons.2 ⟨fun hmem ↦ ?_, h'.nodup⟩
    obtain ⟨x, hx, hxl⟩ := List.mem_map.1 hmem
    have hfree := h'.new x hx
    rw [hxl, hl] at hfree
    cases hfree
  case new =>
    intro x hx
    rw [Option.eq_none_iff_forall_ne_some]
    intro n hn
    rcases List.mem_cons.1 hx with rfl | hx
    · exact hne hn rfl
    · cases (h'.new x hx).symm.trans (hkept hn)
  case kept => exact fun k n hn ↦ h'.kept k n (hkept hn)
  case get?_eq_file_iff =>
    intro k bytes'
    have hfile : t'.get? k = some (.file bytes') ↔
        t.get? k = some (.file bytes') ∨ k = l ∧ bytes' = bytes := by
      by_cases hk : k = l
      · subst hk
        have hold : t.get? k ≠ some (.file bytes') := fun hn ↦ hne hn rfl
        simp [hl, hold, eq_comm]
      · rw [h.get?, if_neg hk, hadds.get?_eq_file_iff]
        simp [hk]
    rw [h'.get?_eq_file_iff, hfile, List.mem_cons, Prod.mk.injEq, or_assoc]

end FileTree

end PdfSchema
