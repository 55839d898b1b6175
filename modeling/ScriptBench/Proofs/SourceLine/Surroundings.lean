import ScriptBench.Proofs.Text.Strip
import ScriptBench.Proofs.Token.Code

/-! A line and what stands around it.

Blanks around a line and a comment behind it are no part of what is run. Of the line
itself nothing is taken off as long as no comment is read into it: when strings and
comments cannot begin in it at all, or when it holds one whole string. -/
namespace ScriptBench.SourceLine
open Token

/-! ### The carriage return at the end -/

theorem stripReturn_return (t : Text) : stripReturn (t ++ ['\r']) = t := by
  rw [stripReturn, Text.stripEnd?_append, Option.getD_some]

theorem stripReturn_concat {c : Char} (t : Text) (h : c ≠ '\r') :
    stripReturn (t ++ [c]) = t ++ [c] := by
  simp [stripReturn, Text.stripEnd?, Text.stripStart?, Ne.symm h]

/-- Only the last piece of a text can lose its end. -/
theorem stripReturn_append (a : Text) {b : Text} (h : b ≠ []) :
    stripReturn (a ++ b) = a ++ stripReturn b := by
  obtain ⟨b, c, rfl⟩ := List.eq_nil_or_concat b |>.resolve_left h
  rw [List.concat_eq_append, ← List.append_assoc]
  by_cases hc : c = '\r'
  · rw [hc, stripReturn_return, stripReturn_return]
  · rw [stripReturn_concat _ hc, stripReturn_concat _ hc, List.append_assoc]

/-- A piece with another end loses nothing, whatever comes behind it. -/
theorem stripReturn_concat_append {c : Char} (a b : Text) (h : c ≠ '\r') :
    stripReturn (a ++ [c] ++ b) = a ++ [c] ++ stripReturn b := by
  cases b with
  | nil =>
    rw [List.append_nil, stripReturn_concat a h]
    exact (List.append_nil _).symm
  | cons d b => exact stripReturn_append _ (List.cons_ne_nil d b)

theorem mem_of_mem_stripReturn {t : Text} {c : Char} (h : c ∈ stripReturn t) : c ∈ t := by
  obtain rfl | ⟨t, d, rfl⟩ := List.eq_nil_or_concat t
  · exact h
  · rw [List.concat_eq_append] at h ⊢
    by_cases hd : d = '\r'
    · rw [hd, stripReturn_return] at h
      exact List.mem_append_left _ h
    · rwa [stripReturn_concat t hd] at h

/-! ### Blanks and a comment -/

/-- What may stand around a line. -/
structure Surroundings where
  lead : Text
  trail : Text
  comment : Text
  lead_blank : ∀ c ∈ lead, Text.isBlank c = true
  trail_blank : ∀ c ∈ trail, Text.isBlank c = true
  comment_opens : comment = [] ∨ ∃ rest, comment = '/' :: '/' :: rest
  oneLine : '\n' ∉ lead ++ trail ++ comment

theorem opensInert_of_isBlank {c : Char} (h : Text.isBlank c = true) : opensInert c = false := by
  rw [Bool.eq_false_iff]
  intro hopens
  simp only [opensInert, Bool.or_eq_true, beq_iff_eq] at hopens
  obtain (rfl | rfl) | rfl := hopens <;> cases h

namespace Surroundings
variable (s : Surroundings)

def around (t : Text) : Text := s.lead ++ t ++ s.trail ++ s.comment

theorem not_mem_around {t : Text} (h : '\n' ∉ t) : '\n' ∉ s.around t := by
  have hline := s.oneLine
  simp only [List.mem_append, not_or] at hline
  simp only [around, List.mem_append, not_or]
  exact ⟨⟨⟨hline.1.1, h⟩, hline.1.2⟩, hline.2⟩

/-- Without a carriage return at the end there are still blanks and perhaps a comment. -/
theorem exists_stripReturn_around {t : Text} {c : Char} (h : c ≠ '\r') :
    ∃ s' : Surroundings, stripReturn (s.around (t ++ [c])) = s'.around (t ++ [c]) := by
  have hline := s.oneLine
  simp only [List.mem_append, not_or] at hline
  obtain hcomment | ⟨rest, hcomment⟩ := s.comment_opens
  · refine ⟨{ s with
      trail := stripReturn s.trail
      trail_blank := fun d hd => s.trail_blank d (mem_of_mem_stripReturn hd)
      oneLine := ?_ }, ?_⟩
    · simp only [List.mem_append, not_or]
      exact ⟨⟨hline.1.1, fun hd => hline.1.2 (mem_of_mem_stripReturn hd)⟩, hline.2⟩
    · simp only [around, hcomment, List.append_nil]
      rw [← List.append_assoc, stripReturn_concat_append _ _ h]
  · refine ⟨{ s with
      comment := '/' :: '/' :: stripReturn rest
      comment_opens := .inr ⟨_, rfl⟩
      oneLine := ?_ }, ?_⟩
    · rw [hcomment] at hline
      simp only [List.mem_append, List.mem_cons, not_or] at hline ⊢
      exact ⟨hline.1, hline.2.1, hline.2.2.1, fun hd => hline.2.2.2 (mem_of_mem_stripReturn hd)⟩
    · have hcut : s.lead ++ (t ++ [c]) ++ s.trail ++ '/' :: '/' :: rest =
          s.lead ++ (t ++ [c]) ++ s.trail ++ ['/'] ++ ['/'] ++ rest := by simp
      simp only [around, hcomment]
      rw [hcut, stripReturn_concat_append _ _ (by decide)]
      simp

/-- Only the comment is left out behind a stretch. -/
theorem code_comment {p : Text} (hp : ∀ c ∈ p, opensInert c = false) :
    code (steps .root (p ++ s.comment)).1 = p := by
  obtain hcomment | ⟨rest, hcomment⟩ := s.comment_opens
  · rw [hcomment, code_stretch hp (by simp), steps, code_nil, List.append_nil]
  · rw [hcomment, code_stretch hp (by simp [opensInert]), code_lineComment, List.append_nil]

/-- A line in which no string and no comment begins is kept. -/
theorem code_around_stretch {t : Text} (ht : ∀ c ∈ t, opensInert c = false) :
    code (steps .root (s.around t)).1 = s.lead ++ t ++ s.trail := by
  refine s.code_comment fun c hc => ?_
  simp only [List.mem_append] at hc
  obtain (hc | hc) | hc := hc
  · exact opensInert_of_isBlank (s.lead_blank c hc)
  · exact ht c hc
  · exact opensInert_of_isBlank (s.trail_blank c hc)

/-- A line with a string in it is kept, whatever the string holds. -/
theorem code_around_string {q : Char} (hquote : q = '"' ∨ q = '\'') {p t p' : Text} (hq : q ∉ t)
    (hp : ∀ c ∈ p, opensInert c = false) (hp' : ∀ c ∈ p', opensInert c = false) :
    code (steps .root (s.around (p ++ q :: (t ++ q :: p')))).1 =
      s.lead ++ (p ++ q :: (t ++ q :: p')) ++ s.trail := by
  have hcut : s.around (p ++ q :: (t ++ q :: p')) =
      (s.lead ++ p) ++ q :: (t ++ q :: (p' ++ s.trail ++ s.comment)) := by simp [around]
  have hbefore : ∀ c ∈ s.lead ++ p, opensInert c = false := fun c hc =>
    (List.mem_append.mp hc).elim (fun hc => opensInert_of_isBlank (s.lead_blank c hc)) (hp c)
  have hafter : ∀ c ∈ p' ++ s.trail, opensInert c = false := fun c hc =>
    (List.mem_append.mp hc).elim (hp' c) fun hc => opensInert_of_isBlank (s.trail_blank c hc)
  have hopens : ∀ c ∈ (q :: (t ++ q :: (p' ++ s.trail ++ s.comment))).head?,
      opensInert c = true := by
    obtain rfl | rfl := hquote <;> simp [opensInert]
  rw [hcut, code_stretch hbefore hopens, code_string hquote hq, s.code_comment hafter]
  simp

end Surroundings

/-- **What stands around a line is no part of what is run.** -/
theorem ofText_around (s : Surroundings) {t : Text} {c : Char}
    (hkept : ∀ s' : Surroundings,
      code (steps .root (s'.around (t ++ [c]))).1 = s'.lead ++ (t ++ [c]) ++ s'.trail)
    (hline : '\n' ∉ t ++ [c]) (hfirst : ∀ d ∈ (t ++ [c]).head?, Text.isBlank d = false)
    (hlast : Text.isBlank c = false) : ofText (s.around (t ++ [c])) = [t ++ [c]] := by
  have hc : c ≠ '\r' := fun hc => by
    rw [hc] at hlast
    cases hlast
  obtain ⟨s', hs'⟩ := s.exists_stripReturn_around (t := t) hc
  have htrim : (s'.lead ++ (t ++ [c]) ++ s'.trail).trim = t ++ [c] :=
    Text.trim_blanks s'.lead_blank s'.trail_blank (by simp) hfirst (by simpa using hlast)
  have htokens : ofTokens (scan .root (s'.around (t ++ [c]))).1 = t ++ [c] := by
    show Text.trim (code (join (steps .root (s'.around (t ++ [c]))).1)) = t ++ [c]
    rw [code_join, hkept, htrim]
  rw [ofText, Text.lines_of_not_mem (s.not_mem_around hline), List.map_singleton, hs']
  exact congrArg ([·]) htokens

end ScriptBench.SourceLine
