import Mathlib.Data.List.Count
import ScriptBench.CommandLine.Report
import ScriptBench.Proofs.Evaluation.Aligned
import ScriptBench.Proofs.Evaluation.Displayed
import ScriptBench.Proofs.Evaluation.Split
import ScriptBench.Proofs.SourceLine.Again

/-! The report of an evaluation.

A report is printed in one pass over the lines of both panes, which ends where the snapshots
do, with the rule printed on the way. Here the rows come first, one a snapshot, and the rule is
put among them: it stands behind the rows of the first pane when all its lines have one, and
so exactly when none of them failed. -/
namespace ScriptBench.Report

/-! ### The rows and the rule -/

/-- The rows of lines beside their snapshots, numbered from `n` on. -/
def numbered (n : Nat) (lines : List Text) (snapshots : List Snapshot) : List String :=
  (lines.zip snapshots).mapIdx fun i (line, s) => row (n + i) line s

theorem numbered_cons (n : Nat) (line : Text) (lines : List Text) (s : Snapshot)
    (snapshots : List Snapshot) :
    numbered n (line :: lines) (s :: snapshots) =
      row n line s :: numbered (n + 1) lines snapshots := by
  simp only [numbered, List.zip_cons_cons, List.mapIdx_cons, Nat.add_zero, Nat.add_assoc,
    Nat.add_comm 1]

/-- Behind the first line of the second pane there is no rule. -/
theorem rows_of_lt {boundary n : Nat} (h : boundary + 1 < n) (lines : List Text)
    (snapshots : List Snapshot) : rows boundary n lines snapshots = numbered n lines snapshots := by
  induction lines generalizing n snapshots with
  | nil => rfl
  | cons line lines ih =>
    have hno : n ≠ boundary + 1 := Nat.ne_of_gt h
    cases snapshots with
    | nil => simp [rows, numbered, hno]
    | cons s snapshots => simp [rows, numbered_cons, hno, ih (Nat.lt_succ_of_lt h)]

/-- The rule stands `k` rows on, where the second pane begins, if the snapshots reach it. -/
theorem rows_eq {boundary n k : Nat} (h : n + k = boundary + 1) (lines : List Text)
    (snapshots : List Snapshot) :
    rows boundary n lines snapshots =
      (numbered n lines snapshots).take k ++
        (if k ≤ snapshots.length ∧ k < lines.length then ["----"] else []) ++
        (numbered n lines snapshots).drop k := by
  induction lines generalizing n k snapshots with
  | nil => simp [rows, numbered]
  | cons line lines ih =>
    cases k with
    | zero =>
      have hn : n = boundary + 1 := h
      cases snapshots with
      | nil => simp [rows, numbered, hn]
      | cons s snapshots =>
        simp [rows, numbered_cons, hn, rows_of_lt (Nat.lt_succ_self (boundary + 1))]
    | succ k =>
      have hn : n ≠ boundary + 1 := by omega
      cases snapshots with
      | nil => simp [rows, numbered, hn]
      | cons s snapshots =>
        have hrest := ih (n := n + 1) (k := k) (by omega) snapshots
        simp [rows, numbered_cons, hn, hrest]

/-- Printed lines are the lines of the text, and the last one is ended. -/
theorem lines_unlines {printed : List String} (h : ∀ l ∈ printed, '\n' ∉ l.toList) :
    Text.lines (unlines printed).toList = printed.map String.toList ++ [[]] := by
  induction printed with
  | nil => rfl
  | cons l printed ih =>
    obtain ⟨hl, hprinted⟩ := List.forall_mem_cons.mp h
    have hcons : (unlines (l :: printed)).toList =
        l.toList ++ '\n' :: (unlines printed).toList := by
      simp [unlines, String.join_cons]
    rw [hcons, Text.lines_append_lineFeed hl, ih hprinted, List.map_cons, List.cons_append]

/-! ### What a row shows -/

section
variable {e : Evaluation} {stackLines witnessLines : List Text}

end

end ScriptBench.Report
