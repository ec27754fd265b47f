import Mathlib.Algebra.BigOperators.Group.List.Lemmas
import Mathlib.Algebra.Ring.Nat
import Mathlib.Data.List.Perm.Basic
import PdfSchema.Proofs.KeyedList
import PdfSchema.Report.Findings

namespace PdfSchema

namespace Diagnostic

namespace Kind

theorem mem_all (k : Kind) : k ∈ all := by cases k <;> decide

theorem pairwise_all : all.Pairwise fun a b ↦ a.le b = true := by decide

theorem le_antisymm {a b : Kind} (h : a.le b = true) (h' : b.le a = true) : a = b := by
  rw [le, decide_eq_true_iff] at h h'
  exact (List.idxOf_inj (mem_all a)).1 (Nat.le_antisymm h h')

end Kind

variable {ds es : List Diagnostic} {c : String} {n : ℕ} {k : Kind} {items : List Diagnostic}

theorem mem_byKind_iff :
    (k, items) ∈ byKind ds ↔ k ∈ ds.map kind ∧ ds.filter (·.kind = k) = items := by
  rw [byKind, List.mem_mergeSort, Pairs.mem_gather_iff, List.foldl_append_eq_append,
    List.nil_append, ← List.flatMap_def, List.flatMap_singleton']

theorem pairwise_byKind (ds : List Diagnostic) :
    (byKind ds).Pairwise fun a b ↦ a.1.le b.1 = true := by
  have htrans : ∀ a b c : Kind × List Diagnostic,
      a.1.le b.1 = true → b.1.le c.1 = true → a.1.le c.1 = true := by
    intro a b c hab hbc
    rw [Kind.le, decide_eq_true_iff] at hab hbc ⊢
    exact Nat.le_trans hab hbc
  have htotal : ∀ a b : Kind × List Diagnostic, (a.1.le b.1 || b.1.le a.1) = true := by
    intro a b
    rw [Bool.or_eq_true, Kind.le, Kind.le, decide_eq_true_iff, decide_eq_true_iff]
    exact Nat.le_total _ _
  exact List.pairwise_mergeSort htrans htotal _

theorem nodup_byKind (ds : List Diagnostic) : (byKind ds).Nodup :=
  (List.mergeSort_perm _ _).nodup_iff.2 (.of_map _ (Pairs.nodup_keys_gather _ _ _ _))

/-- What is gathered and sorted is what the kinds that occur pick out of the findings. -/
theorem byKind_eq_map (ds : List Diagnostic) : byKind ds =
    (Kind.all.filter (· ∈ ds.map kind)).map fun k ↦ (k, ds.filter (·.kind = k)) := by
  have hmem (p : Kind × List Diagnostic) : p ∈ byKind ds ↔
      p ∈ (Kind.all.filter (· ∈ ds.map kind)).map fun k ↦ (k, ds.filter (·.kind = k)) := by
    obtain ⟨k, items⟩ := p
    rw [mem_byKind_iff]
    constructor
    · rintro ⟨hk, rfl⟩
      exact List.mem_map.2 ⟨k, List.mem_filter.2 ⟨k.mem_all, decide_eq_true hk⟩, rfl⟩
    · intro h
      obtain ⟨k', hk', heq⟩ := List.mem_map.1 h
      cases heq
      exact ⟨of_decide_eq_true (List.mem_filter.1 hk').2, rfl⟩
  have hnodup : ((Kind.all.filter (· ∈ ds.map kind)).map fun k ↦
      (k, ds.filter (·.kind = k))).Nodup :=
    List.Nodup.map (fun _ _ h ↦ congrArg Prod.fst h) (List.Nodup.filter _ (by decide))
  refine List.Perm.eq_of_pairwise ?_ (pairwise_byKind ds) ?_ ?_
  · rintro ⟨k, items⟩ ⟨k', items'⟩ h h' hle hle'
    obtain rfl : k = k' := Kind.le_antisymm hle hle'
    obtain ⟨-, rfl⟩ := mem_byKind_iff.1 h
    obtain ⟨-, rfl⟩ := mem_byKind_iff.1 ((hmem _).2 h')
    rfl
  · exact List.pairwise_map.2 (Kind.pairwise_all.filter _)
  · exact (List.perm_ext_iff_of_nodup (nodup_byKind ds) hnodup).2 hmem

theorem count_codes (ds : List Diagnostic) (c : String) :
    (ds.map code).count c = ds.countP (·.code = c) := by
  rw [List.count, List.countP_map]
  rfl

theorem mem_countByCode_iff :
    (c, n) ∈ countByCode ds ↔ n = ds.countP (·.code = c) ∧ 0 < n := by
  have hcount : (ds.filter (·.code = c)).foldl (fun n _ ↦ n + 1) 0 = ds.countP (·.code = c) := by
    simp [List.countP_eq_length_filter]
  rw [countByCode, List.mem_mergeSort, Pairs.mem_gather_iff, hcount, ← List.count_pos_iff,
    count_codes]
  grind

theorem mem_codes_iff : c ∈ (countByCode ds).map Prod.fst ↔ c ∈ ds.map code := by
  rw [← List.count_pos_iff (l := ds.map code), count_codes, List.mem_map]
  constructor
  · rintro ⟨⟨_, n⟩, h, rfl⟩
    obtain ⟨rfl, hpos⟩ := mem_countByCode_iff.1 h
    exact hpos
  · exact fun hpos ↦ ⟨(c, _), mem_countByCode_iff.2 ⟨rfl, hpos⟩, rfl⟩

theorem nodup_codes (ds : List Diagnostic) : ((countByCode ds).map Prod.fst).Nodup :=
  ((List.mergeSort_perm _ _).map _).nodup_iff.2 (Pairs.nodup_keys_gather _ _ _ _)

theorem pairwise_countByCode (ds : List Diagnostic) :
    (countByCode ds).Pairwise fun a b ↦ a.1 < b.1 := by
  have htrans : ∀ a b c : String × ℕ,
      decide (a.1 ≤ b.1) = true → decide (b.1 ≤ c.1) = true → decide (a.1 ≤ c.1) = true := by
    intro a b c hab hbc
    rw [decide_eq_true_iff] at hab hbc ⊢
    exact String.le_trans hab hbc
  have htotal : ∀ a b : String × ℕ, (decide (a.1 ≤ b.1) || decide (b.1 ≤ a.1)) = true := by
    intro a b
    simpa using String.le_total a.1 b.1
  have hsorted := List.pairwise_mergeSort htrans htotal (Pairs.gather code 0 (fun n _ ↦ n + 1) ds)
  have hnodup := List.pairwise_map.1 (nodup_codes ds)
  exact hsorted.imp₂ (fun a b hab hne ↦ Std.lt_of_le_of_ne (of_decide_eq_true hab) hne) hnodup

theorem sum_countByCode (ds : List Diagnostic) :
    ((countByCode ds).map Prod.snd).sum = ds.length := by
  have hcodes : ((countByCode ds).map Prod.fst).Perm (ds.map code).dedup := by
    refine (List.perm_ext_iff_of_nodup (nodup_codes ds) (List.nodup_dedup _)).2 fun c ↦ ?_
    rw [List.mem_dedup, mem_codes_iff]
  have hcounts : (countByCode ds).map Prod.snd =
      ((countByCode ds).map Prod.fst).map fun c ↦ (ds.map code).count c := by
    rw [List.map_map]
    refine List.map_congr_left ?_
    rintro ⟨c, n⟩ h
    obtain ⟨rfl, -⟩ := mem_countByCode_iff.1 h
    exact (count_codes ds c).symm
  rw [hcounts, (hcodes.map _).sum_eq, List.sum_map_count_dedup_eq_length, List.length_map]

theorem countByCode_eq_of_perm (h : ds.Perm es) : countByCode ds = countByCode es := by
  have hnodup (ds : List Diagnostic) : (countByCode ds).Nodup := .of_map _ (nodup_codes ds)
  have hperm : (countByCode ds).Perm (countByCode es) := by
    refine (List.perm_ext_iff_of_nodup (hnodup ds) (hnodup es)).2 fun ⟨c, n⟩ ↦ ?_
    rw [mem_countByCode_iff, mem_countByCode_iff, h.countP_eq]
  refine hperm.eq_of_pairwise ?_ (pairwise_countByCode ds) (pairwise_countByCode es)
  exact fun a b _ _ hab hba ↦ absurd hba (String.lt_asymm hab)

/-- What is said of the numbers under the codes: the codes ascend, each one that occurs is there with
the number of findings that have it, and the numbers add up to that of all findings. -/
structure Tallies (ds : List Diagnostic) (tallies : List (String × ℕ)) : Prop where
  ascending : tallies.Pairwise fun a b ↦ a.1 < b.1
  counted : ∀ c n, (c, n) ∈ tallies ↔ n = ds.countP (·.code = c) ∧ 0 < n
  total : (tallies.map Prod.snd).sum = ds.length

theorem tallies_countByCode (ds : List Diagnostic) : Tallies ds (countByCode ds) :=
  ⟨pairwise_countByCode ds, fun _ _ ↦ mem_countByCode_iff, sum_countByCode ds⟩

theorem perm_flatMap_filter {α κ : Type} [DecidableEq κ] (key : α → κ) {ks : List κ}
    (hks : ks.Nodup) {xs : List α} (h : ∀ x ∈ xs, key x ∈ ks) :
    xs.Perm (ks.flatMap fun k ↦ xs.filter (key · = k)) := by
  induction ks generalizing xs with
  | nil =>
    obtain rfl : xs = [] := List.eq_nil_iff_forall_not_mem.2 fun x hx ↦ nomatch h x hx
    exact .refl []
  | cons k ks ih =>
    obtain ⟨hk, hks⟩ := List.nodup_cons.1 hks
    have hrest : ∀ k' ∈ ks, (xs.filter fun x ↦ !decide (key x = k)).filter (key · = k') =
        xs.filter (key · = k') := by
      intro k' hk'
      rw [List.filter_filter]
      refine List.filter_congr fun x _ ↦ ?_
      by_cases hx : key x = k'
      · have hne : k' ≠ k := fun heq ↦ hk (heq ▸ hk')
        simp [hx, hne]
      · simp [hx]
    have hkeys : ∀ x ∈ xs.filter (fun x ↦ !decide (key x = k)), key x ∈ ks := by
      intro x hx
      obtain ⟨hx, hkey⟩ := List.mem_filter.1 hx
      have hne : key x ≠ k := by simpa using hkey
      exact List.mem_of_ne_of_mem hne (h x hx)
    have ih := ih hks hkeys
    rw [List.flatMap_congr hrest] at ih
    rw [List.flatMap_cons]
    exact (List.filter_append_perm (key · = k) xs).symm.trans (ih.append_left _)

end Diagnostic

namespace Report

open Diagnostic

/-- Under the header of each kind that occurs, in the order of the kinds, stand the findings of that
kind in their order. No finding is left out. A summary follows, unless there are none: how many
findings there are, and how many with each code, which does not depend on their order. -/
theorem findings_complete (color : Bool) (ds : List Diagnostic) :
    findings color ds = unlines (((Kind.all.filter (· ∈ ds.map kind)).flatMap fun k ↦
        (paint color .bold k.label ++ (" (" ++ toString (ds.countP (·.kind = k)) ++ ")")) ::
          (ds.filter (·.kind = k)).map (findingLine color)) ++
      [if ds = [] then paint color .green "schema is consistent"
        else toString ds.length ++ " finding(s): " ++
          " ".intercalate ((countByCode ds).map fun (c, n) ↦ c ++ "=" ++ toString n)]) ∧
    ds.Perm ((Kind.all.filter (· ∈ ds.map kind)).flatMap fun k ↦ ds.filter (·.kind = k)) ∧
    Tallies ds (countByCode ds) ∧ ∀ es, ds.Perm es → countByCode es = countByCode ds := by
  refine ⟨?_, perm_flatMap_filter kind (.filter _ (by decide)) fun d hd ↦ ?_,
    tallies_countByCode ds, fun es h ↦ (countByCode_eq_of_perm h).symm⟩
  · have hempty : ds.isEmpty = true ↔ ds = [] := List.isEmpty_iff
    rw [findings, findingsLines, byKind_eq_map, List.flatMap_map]
    simp only [hempty, List.countP_eq_length_filter]
    rfl
  · exact List.mem_filter.2 ⟨d.kind.mem_all, decide_eq_true (List.mem_map_of_mem hd)⟩

def mixedFindings : List Diagnostic :=
  [⟨.consistency, .error, "orphan-object", { object := some "A" }, "not reached"⟩,
    ⟨.lexical, .warning, "odd-token", { object := some "B", key := some "K" }, "unread"⟩,
    ⟨.consistency, .note, "odd-token", {}, "kept"⟩]

theorem findings_complete_mixed : mixedFindings.Perm mixedFindings.reverse ∧
    countByCode mixedFindings.reverse = countByCode mixedFindings ∧
    Tallies mixedFindings [("odd-token", 2), ("orphan-object", 1)] ∧
    findings false mixedFindings = "lex (1)\n  warning B::K: unread\nschema-consistency (2)\n" ++
      "  error A: not reached\n  note : kept\n3 finding(s): odd-token=2 orphan-object=1\n" := by
  obtain ⟨htext, -, htallies, hperm⟩ := findings_complete false mixedFindings
  have hreverse := (List.reverse_perm mixedFindings).symm
  have hgather : Pairs.gather code 0 (fun n _ ↦ n + 1) mixedFindings =
      [("orphan-object", 1), ("odd-token", 2)] := by decide +kernel
  have hcounts : countByCode mixedFindings = [("odd-token", 2), ("orphan-object", 1)] := by
    rw [countByCode, hgather, List.mergeSort]
    simp
  refine ⟨hreverse, hperm _ hreverse, hcounts ▸ htallies, ?_⟩
  rw [htext, hcounts]
  decide +kernel

end Report

end PdfSchema
