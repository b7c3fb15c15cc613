import TernLang.Proofs.Syntax.Lexemes

-- How far on in a source text its tokens and nodes stand.

namespace TernLang

namespace Token.Scan

theorem append_comparison (single double : Kind) (c : Char) (cs : List Char) :
    (comparison single double c cs).lexeme ++ (comparison single double c cs).rest = c :: cs := by
  unfold comparison
  split <;> rfl

theorem append_quoted (mark : Char) (cs : List Char) :
    (quoted mark cs).lexeme ++ (quoted mark cs).rest = mark :: cs := by
  simp only [quoted, List.cons_append, List.append_assoc, List.take_append_drop,
    List.takeWhile_append_dropWhile]

-- A piece takes the characters in front, and leaves the rest.
theorem append_of_front {c : Char} {cs : List Char} {piece : Piece}
    (h : front c cs = .ok piece) : piece.lexeme ++ piece.rest = c :: cs := by
  unfold front at h
  split at h
  · cases h
    rfl
  split at h
  · cases h
    exact List.takeWhile_append_dropWhile
  split at h
  · cases h
    rfl
  split at h
  · cases h
    rfl
  · cases h
    exact append_comparison _ _ c cs
  · split at h
    · cases h
      exact append_quoted c cs
    split at h
    · cases h
      exact List.takeWhile_append_dropWhile
    split at h
    · unfold number at h
      simp only at h
      split at h
      · cases h
        exact List.takeWhile_append_dropWhile
      · cases h
        exact List.takeWhile_append_dropWhile
      · cases h
    · cases h

end Token.Scan

namespace Position

-- A position that is at most so many lines and columns into a text.
structure Within (bound : Int) (p : Position) : Prop where
  line : 0 ≤ p.line ∧ p.line ≤ bound
  column : 0 ≤ p.column ∧ p.column ≤ bound

theorem Within.mono {a b : Int} {p : Position} (h : p.Within a) (hle : a ≤ b) : p.Within b := by
  obtain ⟨⟨hline, hline'⟩, hcolumn, hcolumn'⟩ := h
  exact ⟨⟨hline, by omega⟩, hcolumn, by omega⟩

-- Each character leads one line or one column further.
theorem Within.after {bound : Int} {p : Position} (h : p.Within bound) (hbound : 0 ≤ bound)
    (cs : List Char) : (p.after cs).Within (bound + cs.length) := by
  induction cs generalizing p bound with
  | nil => simpa using h
  | cons c cs ih =>
    obtain ⟨⟨hline, hline'⟩, hcolumn, hcolumn'⟩ := h
    have hnext : (p.next c).Within (bound + 1) := by
      unfold next
      split
      · exact ⟨by simp only; omega, by simp only; omega⟩
      · exact ⟨by simp only; omega, by simp only; omega⟩
    have hlater := ih hnext (by omega)
    rw [after_cons, List.length_cons]
    exact hlater.mono (by omega)

end Position

namespace Place

-- The place of a position within a bound.
def Within (bound : Int) (p : Place) : Prop := ∃ q : Position, q.Within bound ∧ p = .ofPosition q

end Place

namespace Token

-- No token of a source text stands further on than the text is long.
theorem within_of_scan {source : String} {tokens : List Token} (h : scan source = .ok tokens) :
    ∀ t ∈ tokens, t.place.Within (source.toList.length + 1) := by
  generalize hbound : (source.toList.length : Int) + 1 = bound
  -- The steps of the scan keep the sum of what is read and what is left.
  let I (pos : Position) (cs : List Char) : Prop :=
    ∃ k : Int, 0 ≤ k ∧ pos.Within k ∧ k + cs.length ≤ bound
  refine Scan.forall_mem_tokens (I := I) ?_ ?_ _ _ _ _ ?_ h
  · rintro pos cs ⟨k, -, hwithin, hk⟩
    exact ⟨pos, hwithin.mono (by omega), rfl⟩
  · rintro pos c cs piece ⟨k, hpos, hwithin, hk⟩ hpiece
    have hsplit := congrArg List.length (Scan.append_of_front hpiece)
    rw [List.length_append] at hsplit
    refine ⟨⟨k + piece.lexeme.length, by omega, hwithin.after hpos _, by omega⟩, fun token _ => ?_⟩
    exact ⟨pos, hwithin.mono (by omega), rfl⟩
  · exact ⟨1, by decide, ⟨by decide, by decide⟩, by omega⟩

end Token

namespace Node

-- The trees whose places are within a bound.
def Leaves.within (bound : Int) : Leaves := ⟨Place.Within bound, fun _ => True⟩

theorem isProgram_within_of_parse [Machine] {source : String} {program : Node}
    (h : Node.parse source = .ok program) :
    program.IsProgram (.within (source.toList.length + 1)) := by
  unfold Node.parse at h
  split at h
  · rename_i tokens hscan
    have hstart : Place.start.Within (source.toList.length + 1) :=
      ⟨.start, ⟨by simp only [Position.start]; omega, by simp only [Position.start]; omega⟩, rfl⟩
    refine isProgram_of_ofTokens hstart (fun t ht => ⟨?_, ?_⟩) h
    · exact Token.within_of_scan hscan t ht
    · exact Token.text_of_scan (fun _ _ _ => trivial) hscan t ht
  · exact absurd h (by simp)

end Node

end TernLang
