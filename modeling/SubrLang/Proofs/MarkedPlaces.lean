import SubrLang.Diagnostic
import SubrLang.Proofs.TokenSpans

/-!
# Marks under tokens

The scanner counts lines and columns as it goes, and a report searches the text again for the line of a
place. They agree on every token.

**Lines.** The lines of a text are what stands between its line ends, and `lineStart` is the offset at which
one of them starts. A text is one line, or a line, its end and another text (`lines_induction`).

**Places.** A place that starts at an offset (`Place.StartsAt`) is in the line that the offset is in, and its
column is counted from the start of that line (`line_at_offset`).
-/

namespace SubrLang

/-! ## Lines -/

/-- A text consists of lines. -/
lemma lines_induction {P : List Char → Prop} (last : ∀ line, '\n' ∉ line → P line)
    (step : ∀ line rest, '\n' ∉ line → P rest → P (line ++ '\n' :: rest)) (source : List Char) :
    P source := by
  induction hn : source.length using Nat.strong_induction_on generalizing source with
  | _ n ih =>
    have hline : '\n' ∉ source.takeWhile (· != '\n') := fun hmem => by
      simpa using List.mem_takeWhile_imp hmem
    rcases Lexeme.takeWhile_cases (· != '\n') source with hall | ⟨d, rest, hsource, hd⟩
    · rw [hall] at hline
      exact last source hline
    · obtain rfl : d = '\n' := by simpa using hd
      have hlen := congrArg List.length hsource
      rw [List.length_append, List.length_cons] at hlen
      rw [hsource]
      exact step _ rest hline (ih rest.length (by omega) rest rfl)

/-- The offset at which a line of a text starts, where the first line has number 0. -/
def lineStart (source : List Char) (k : Nat) : Nat :=
  (((source.splitOn '\n').take k).map (·.length + 1)).sum

section

variable {line rest : List Char}

lemma ne_of_mem_line (h : '\n' ∉ line) {c : Char} (hc : c ∈ line) : c ≠ '\n' := by
  rintro rfl
  exact h hc

lemma splitOn_line (h : '\n' ∉ line) : line.splitOn '\n' = [line] := by
  rw [List.splitOn_eq_splitOnP]
  exact List.splitOnP_eq_singleton fun c hc => by simpa using ne_of_mem_line h hc

lemma splitOn_lines (h : '\n' ∉ line) :
    (line ++ '\n' :: rest).splitOn '\n' = line :: rest.splitOn '\n' := by
  rw [List.splitOn_eq_splitOnP, List.splitOn_eq_splitOnP]
  exact List.splitOnP_append_cons_of_forall_mem (fun c hc => by simpa using ne_of_mem_line h hc) _
    (by simp) _

lemma takeWhile_line (h : '\n' ∉ line) : line.takeWhile (· != '\n') = line :=
  List.takeWhile_eq_self_iff.mpr fun c hc => by simpa using ne_of_mem_line h hc

lemma takeWhile_lines (line rest : List Char) :
    (line ++ '\n' :: rest).takeWhile (· != '\n') = line.takeWhile (· != '\n') := by
  rw [List.takeWhile_append]
  split
  · next hlen =>
    have hall := List.IsPrefix.eq_of_length (List.takeWhile_prefix (p := (· != '\n')) (l := line)) hlen
    rw [hall]
    simp
  · rfl

lemma lineAt_lines (h : '\n' ∉ line) (k : Nat) :
    Report.lineAt (k + 1) (line ++ '\n' :: rest) = Report.lineAt k rest := by
  have hdrop : (line ++ '\n' :: rest).dropWhile (· != '\n') = '\n' :: rest := by
    rw [List.dropWhile_append_of_pos fun c hc => by simpa using ne_of_mem_line h hc]
    simp
  rw [Report.lineAt, hdrop]

end

/-- An offset lies in the line whose number is that of the line ends in front of it, as many characters
behind its start as there are between it and the last of them. -/
lemma line_at_offset (source : List Char) : ∀ offset ≤ source.length, ∀ k col,
    (source.take offset).count '\n' = k →
    ((source.take offset).reverse.takeWhile (· != '\n')).length = col →
      (source.splitOn '\n')[k]? = some (Report.lineAt k source) ∧
        lineStart source k + col = offset ∧ col ≤ (Report.lineAt k source).length := by
  -- the offset is in the first line
  have hfirst {line : List Char} {offset : Nat} (hline : '\n' ∉ line) (hoffset : offset ≤ line.length) :
      (line.take offset).count '\n' = 0 ∧
        ((line.take offset).reverse.takeWhile (· != '\n')).length = offset := by
    have hnot : '\n' ∉ line.take offset := fun h => hline (List.mem_of_mem_take h)
    refine ⟨List.count_eq_zero.mpr hnot, ?_⟩
    rw [takeWhile_line (by simpa using hnot), List.length_reverse, List.length_take]
    omega
  induction source using lines_induction with
  | last line hline =>
    rintro offset hoffset k col rfl rfl
    obtain ⟨hcount, hcol⟩ := hfirst hline hoffset
    rw [hcount, hcol, splitOn_line hline, Report.lineAt, takeWhile_line hline]
    exact ⟨rfl, by simp [lineStart], hoffset⟩
  | step line rest hline ih =>
    rintro offset hoffset k col rfl rfl
    by_cases hin : offset ≤ line.length
    · obtain ⟨hcount, hcol⟩ := hfirst hline hin
      rw [List.take_append_of_le_length hin, hcount, hcol, splitOn_lines hline, Report.lineAt,
        takeWhile_lines, takeWhile_line hline]
      exact ⟨rfl, by simp [lineStart], hin⟩
    · obtain ⟨o, rfl⟩ : ∃ o, offset = line.length + (o + 1) := ⟨offset - line.length - 1, by omega⟩
      have htake : (line ++ '\n' :: rest).take (line.length + (o + 1)) = line ++ '\n' :: rest.take o := by
        rw [List.take_append, List.take_of_length_le (by omega), Nat.add_sub_cancel_left,
          List.take_succ_cons]
      have hcount : (line ++ '\n' :: rest.take o).count '\n' = (rest.take o).count '\n' + 1 := by
        rw [List.count_append, List.count_eq_zero.mpr hline, List.count_cons_self, Nat.zero_add]
      have ho : o ≤ rest.length := by
        rw [List.length_append, List.length_cons] at hoffset
        omega
      obtain ⟨hget, hstart, hcol⟩ := ih o ho _ _ rfl rfl
      rw [htake, hcount, List.reverse_append, List.reverse_cons, List.append_assoc, List.singleton_append,
        takeWhile_lines, lineAt_lines hline, splitOn_lines hline]
      refine ⟨hget, ?_, hcol⟩
      rw [lineStart] at hstart ⊢
      rw [splitOn_lines hline, List.take_succ_cons, List.map_cons, List.sum_cons]
      omega

/-! ## Marks -/

/-- Errors at a place are shown with the line that an offset is in and with a mark below it. -/
def Report.PointsAt (r : Report) (f : SourceFile) (p : Place) (offset : Nat) : Prop :=
  ∃ (k indent : Nat) (line : List Char),
    (f.content.splitOn '\n')[k]? = some line ∧ p.line = k + 1 ∧ p.column = indent + 1 ∧
    -- the mark stands under the offset, which is in the line or behind its last character
    lineStart f.content k + indent = offset ∧ indent ≤ line.length ∧
    (f.content.length < 2 ^ 63 → ∀ message, r.render ⟨.error, p, message⟩ =
      s!"{f.name}:{p.line}:{p.column}: error: {message}\n" ++
        "  " ++ String.ofList line ++ "\n  " ++ String.ofList (List.replicate indent ' ') ++
        "^" ++ String.ofList (List.replicate (p.len - 1).toNat '~') ++ "\n")

/-- Errors at a place that starts at an offset are marked there. -/
lemma Place.StartsAt.pointsAt {r : Report} {f : SourceFile} {p : Place} {offset : Nat}
    (h : p.StartsAt f.content offset) (hoffset : offset ≤ f.content.length) (hfile : r.file? p = some f) :
    r.PointsAt f p offset := by
  obtain ⟨hget, hstart, hcol⟩ := line_at_offset f.content offset hoffset _ _ rfl rfl
  refine ⟨_, _, _, hget, ?_, ?_, hstart, hcol, fun hsize message => ?_⟩
  · rw [h.line]
    omega
  · rw [h.column]
    omega
  · have hline : p.line ≠ 0 := by
      rw [h.line]
      omega
    have hnumber : p.line.toNat - 1 = (f.content.take offset).count '\n' := by
      rw [h.line]
      omega
    have hindent : Report.markIndent p =
        ((f.content.take offset).reverse.takeWhile (· != '\n')).length := by
      have hshort : ((f.content.take offset).reverse.takeWhile (· != '\n')).length ≤ f.content.length := by
        omega
      rw [Report.markIndent, h.column, add_sub_cancel_left, Int.bmod_def,
        show (1 <<< 64 : Nat) = 2 ^ 64 from rfl]
      split <;> omega
    simp only [Report.render, hfile, if_neg hline, Report.excerpt, hnumber, hindent, Report.markTail]
    have hlabel (rest : String) : ": error: " ++ rest = ": " ++ ("error" ++ (": " ++ rest)) := by
      rw [← String.append_assoc, ← String.append_assoc]
      rfl
    simp only [String.append_assoc]
    show _ = f.name ++ (":" ++ (toString p.line ++ (":" ++ (toString p.column ++ (": error: " ++ _)))))
    rw [hlabel]
    rfl

/-- Tokens know the file that they are in. -/
lemma Scan.file_eq (file : Int) (p : Cursor) (cs : List Char) :
    ∀ t ∈ (Scan.from file p cs).tokens, t.place.file = file := by
  fun_induction Scan.from file p cs with
  | case1 p => simp [Cursor.place]
  | case2 p c cs x place rest tokens errors ih =>
    intro t ht
    cases hx : x.token with
    | none =>
      simp only [tokens, hx] at ht
      exact ih t ht
    | some kv =>
      simp only [tokens, hx, List.mem_cons] at ht
      rcases ht with rfl | ht
      · rfl
      · exact ih t ht

/-- **Diagnostics point at the token.** A source is cut up into the stretches of its tokens, and an error at
a token is shown with the line that the token starts on and with a mark under its first character; an
error at the end of input is marked there. -/
theorem Report.errors_point_at_tokens (r : Report) (f : SourceFile) (file : Nat)
    (hfile : r.files[file]? = some f) :
    ∃ body comments, (scan f.content file).Tiles f.content 0 body comments ∧
      (∀ p ∈ body, r.PointsAt f p.2.place p.1.start) ∧
      ∀ t ∈ (scan f.content file).tokens, t.kind = .eof → r.PointsAt f t.place f.content.length := by
  obtain ⟨body, comments, h⟩ : ∃ body comments, (scan f.content file).Tiles f.content 0 body comments :=
    Scan.tiles_from file f.content _ _ 0 (Nat.zero_le _) rfl rfl
  have hin {t : Token} (ht : t ∈ (scan f.content file).tokens) : r.file? t.place = some f := by
    have hplace : t.place.file = file := Scan.file_eq _ _ _ t ht
    rw [Report.file?, hplace, if_neg (by omega), Int.toNat_natCast, hfile]
  obtain ⟨last, htokens, -, -, hlast⟩ := h.tokens
  refine ⟨body, comments, h, fun p hp => ?_, fun t ht heof => ?_⟩
  · have hstretch := (h.inside p hp).2
    refine (h.place p hp).pointsAt ?_ (hin ?_)
    · simp only [Stretch.stop] at hstretch
      omega
    · rw [htokens]
      exact List.mem_append_left _ (List.mem_map_of_mem hp)
  · have hmem : t ∈ body.map (·.2) ++ [last] := htokens ▸ ht
    rcases List.mem_append.mp hmem with hbody | hend
    · obtain ⟨p, hp, rfl⟩ := List.mem_map.mp hbody
      exact absurd heof (h.kind_ne p hp)
    · obtain rfl := List.mem_singleton.mp hend
      exact hlast.pointsAt le_rfl (hin ht)

/-- The token behind a comment and a character constant that is a line end. -/
theorem Report.errors_point_at_tokens_on_lines :
    let f : SourceFile := ⟨"t.tan", "# a #x\n'\n'y".toList⟩
    let r : Report := { files := [f] }
    r.files[0]? = some f ∧ ∃ body comments, (scan f.content (0 : Nat)).Tiles f.content 0 body comments ∧
      (∀ p ∈ body, r.PointsAt f p.2.place p.1.start) ∧
      ∀ t ∈ (scan f.content (0 : Nat)).tokens, t.kind = .eof → r.PointsAt f t.place f.content.length := by
  intro f r
  exact ⟨rfl, Report.errors_point_at_tokens r f 0 rfl⟩

end SubrLang
