import StyleExpand.Proofs.Value.Rereading
import StyleExpand.Proofs.Value.Splitting

/-!
# Tokens and the blanks between them

Tokens end at spaces, line feeds and tabs only, but all kinds of blanks are trimmed off them. Whether a
piece is a token is decided before it is trimmed: other blanks that touch no token, such as a carriage
return between a space and a line feed, come out as an empty token, and all tokens behind it move on
by one place.

* `pieces_join` : the pieces of two texts, one behind the other;
* `nil_mem_splitSpace_iff` : when there is an empty token;
* `strays` : the other blanks in a row of blanks that touch no token;
* `Flush` : a row of blanks without strays;
* `splitSpace_layout` : the tokens around a row of blanks;
* `empty_tokens_shift` : rows of blanks that are not the same as a space.
-/

namespace StyleExpand

open Nesting

/-! ## Pieces of rows -/

section Pieces

variable {sep : Char → Bool} {n : Nesting} {c : Char} {cs ds ws : List Char}

/-- The pieces of two texts in a row: the last piece of the one and the first of the other are one. -/
theorem pieces_join (hsep : ∀ c, sep c = true → Nesting.top.step c = .top)
    {front rest : List (List Char)} {last first : List Char}
    (hcs : pieces sep n cs = front ++ [last]) (hds : pieces sep (n.run cs) ds = first :: rest) :
    pieces sep n (cs ++ ds) = front ++ (last ++ first) :: rest := by
  induction cs generalizing n front last with
  | nil =>
    obtain ⟨rfl, rfl⟩ : front = [] ∧ [] = last := by
      have hone : [] ++ [[]] = front ++ [last] := hcs
      simpa [eq_comm] using List.append_inj' hone rfl
    exact hds
  | cons c cs ih =>
    rw [pieces] at hcs
    rw [run_cons] at hds
    rw [List.cons_append, pieces]
    split at hcs
    · rename_i hc
      rw [if_pos hc]
      obtain ⟨rfl, hc⟩ := hc
      rw [hsep c hc] at hds
      cases front with
      | nil => exact absurd (List.cons.inj hcs).2 (pieces_ne_nil sep .top cs)
      | cons p front =>
        rw [List.cons_append] at hcs
        obtain ⟨rfl, hrest⟩ := List.cons.inj hcs
        rw [ih hrest hds, List.cons_append]
    · rename_i hc
      rw [if_neg hc]
      obtain ⟨p, ps, heq⟩ := List.exists_cons_of_ne_nil (pieces_ne_nil sep (n.step c) cs)
      rw [heq, List.modifyHead_cons] at hcs
      cases front with
      | nil =>
        obtain ⟨rfl, rfl⟩ := List.cons.inj hcs
        have hone : pieces sep (n.step c) cs = [] ++ [p] := heq
        rw [ih hone hds]
        rfl
      | cons q front =>
        rw [List.cons_append] at hcs
        obtain ⟨rfl, rfl⟩ := List.cons.inj hcs
        rw [← List.cons_append] at heq
        rw [ih heq hds]
        rfl

theorem avoids_of_mem_pieces (hsep : ∀ c, sep c = true → Nesting.top.step c = .top)
    {piece : List Char} (hpiece : piece ∈ pieces sep .top cs) :
    Nesting.top.avoids sep piece = true := by
  have hnone : Nesting.top.avoids (fun c => sep c && !sep c) cs = true :=
    avoids_of_forall fun c => by cases sep c <;> rfl
  obtain ⟨first, others, heq, hfirst, hothers⟩ := avoids_pieces hsep hnone
  rw [heq] at hpiece
  rcases List.mem_cons.1 hpiece with rfl | hpiece
  · exact hfirst
  · exact hothers piece hpiece

theorem avoids_blank (h : Text.Blank ws) :
    Nesting.top.avoids sep ws = true ↔ ∀ c ∈ ws, sep c = false := by
  induction ws with
  | nil => simp
  | cons c ws ih =>
    rw [avoids_cons, step_top_blank (h c (by simp)), ih fun d hd => h d (by simp [hd])]
    simp

end Pieces

/-! ## Tokens -/

theorem step_top_tokenSeparator {c : Char} (hc : isTokenSeparator c = true) :
    Nesting.top.step c = .top := by
  simp only [isTokenSeparator, Bool.or_eq_true, beq_iff_eq] at hc
  rcases hc with (rfl | rfl) | rfl <;> decide

theorem splitSpace_eq (cs : List Char) : splitSpace cs = trimFilled (pieces isTokenSeparator .top cs) :=
  rfl

/-- There is an empty token exactly if there is a piece of blanks. -/
theorem nil_mem_splitSpace_iff {cs : List Char} :
    [] ∈ splitSpace cs ↔ ∃ piece ∈ pieces isTokenSeparator .top cs, piece ≠ [] ∧ Text.Blank piece := by
  simp only [splitSpace, List.mem_map, List.mem_filter, Text.trim_eq_nil_iff, Bool.not_eq_true',
    List.isEmpty_eq_false_iff, ne_eq, and_assoc]

/-- A space where nothing is open divides a text into two whose tokens are found by themselves. -/
theorem splitSpace_append_space {xs ys : List Char} (hrun : Nesting.top.run xs = .top) :
    splitSpace (xs ++ ' ' :: ys) = splitSpace xs ++ splitSpace ys := by
  rw [splitSpace_eq, pieces_append_separator (fun _ => step_top_tokenSeparator) hrun (by decide),
    trimFilled_append]
  rfl

/-! ## Rows of blanks -/

def endsFilled (cs : List Char) : Bool :=
  (pieces isTokenSeparator .top cs).getLast?.any (!·.isEmpty)

def startsFilled (cs : List Char) : Bool :=
  (pieces isTokenSeparator .top cs).head?.any (!·.isEmpty)

/-- The pieces of a row of blanks between two texts that join no piece of these. -/
def loosePieces (xs ws ys : List Char) : List (List Char) :=
  let ps := pieces isTokenSeparator .top ws
  let ps := if endsFilled xs then ps.tail else ps
  if startsFilled ys then ps.dropLast else ps

/-- The blanks between two texts that are no separators and touch neither text, piece by piece. -/
def strays (xs ws ys : List Char) : List (List Char) := (loosePieces xs ws ys).filter (!·.isEmpty)

/-- Between two texts, a row of blanks has separators on end, and others only where they touch a piece
of one of the texts. -/
def Flush (xs ws ys : List Char) : Prop :=
  ∃ us seps vs, ws = us ++ seps ++ vs ∧ seps ≠ [] ∧ (∀ c ∈ seps, isTokenSeparator c = true) ∧
    (∀ c ∈ us ++ vs, isTokenSeparator c = false) ∧
    (us ≠ [] → endsFilled xs = true) ∧ (vs ≠ [] → startsFilled ys = true)

section Rows

variable {xs ws ys us vs first last : List Char} {front mids rest : List (List Char)}

theorem exists_front_of_pieces (cs : List Char) :
    ∃ front last, pieces isTokenSeparator .top cs = front ++ [last] ∧
      endsFilled cs = !last.isEmpty := by
  obtain ⟨front, last, heq⟩ := (List.eq_nil_or_concat _).resolve_left
    (pieces_ne_nil isTokenSeparator .top cs)
  rw [List.concat_eq_append] at heq
  refine ⟨front, last, heq, ?_⟩
  rw [endsFilled, heq, List.getLast?_concat]
  rfl

theorem exists_rest_of_pieces (cs : List Char) :
    ∃ first rest, pieces isTokenSeparator .top cs = first :: rest ∧
      startsFilled cs = !first.isEmpty := by
  obtain ⟨first, rest, heq⟩ := List.exists_cons_of_ne_nil (pieces_ne_nil isTokenSeparator .top cs)
  refine ⟨first, rest, heq, ?_⟩
  rw [startsFilled, heq]
  rfl

theorem blank_of_mem_pieces (hblank : Text.Blank ws) {piece : List Char}
    (hpiece : piece ∈ pieces isTokenSeparator .top ws) :
    Text.Blank piece ∧ ∀ c ∈ piece, isTokenSeparator c = false := by
  have hpieceBlank : Text.Blank piece := fun c hc => hblank c ((infix_of_mem_pieces hpiece).subset hc)
  exact ⟨hpieceBlank, (avoids_blank hpieceBlank).1
    (avoids_of_mem_pieces (fun _ => step_top_tokenSeparator) hpiece)⟩

theorem exists_mids_of_pieces (hblank : Text.Blank ws) (hsep : ∃ c ∈ ws, isTokenSeparator c = true) :
    ∃ us mids vs, pieces isTokenSeparator .top ws = us :: (mids ++ [vs]) := by
  obtain ⟨us, others, heq⟩ := List.exists_cons_of_ne_nil (pieces_ne_nil isTokenSeparator .top ws)
  have hothers : others ≠ [] := by
    rintro rfl
    obtain ⟨c, hc, hcsep⟩ := hsep
    have hpiece : ws ∈ pieces isTokenSeparator .top ws := by
      rcases pieces_inversion heq with ⟨-, rfl⟩ | ⟨d, ds, -, -, -, hds⟩
      · exact heq ▸ List.mem_cons_self
      · exact absurd hds.symm (pieces_ne_nil isTokenSeparator .top ds)
    simp [(blank_of_mem_pieces hblank hpiece).2 c hc] at hcsep
  obtain ⟨mids, vs, rfl⟩ := (List.eq_nil_or_concat others).resolve_left hothers
  exact ⟨us, mids, vs, by rw [heq, List.concat_eq_append]⟩

theorem loosePieces_eq (hws : pieces isTokenSeparator .top ws = us :: (mids ++ [vs])) :
    loosePieces xs ws ys = (if endsFilled xs then [] else [us]) ++ mids ++
      (if startsFilled ys then [] else [vs]) := by
  have hlast : (us :: (mids ++ [vs])).dropLast = us :: mids := by
    rw [← List.cons_append, List.dropLast_concat]
  rw [loosePieces, hws]
  cases endsFilled xs <;> cases startsFilled ys <;> simp [hlast]

/-! ## What a row of blanks leaves -/

theorem trimFilled_append_blank (hus : Text.Blank us) :
    trimFilled [last ++ us] = trimFilled [last] ++ trimFilled (if last.isEmpty then [us] else []) := by
  cases last with
  | nil => rfl
  | cons c cs =>
    rw [List.cons_append, trimFilled_cons (by simp), trimFilled_cons (by simp), ← List.cons_append,
      Text.trim_append_blank hus]
    rfl

theorem trimFilled_blank_append (hvs : Text.Blank vs) :
    trimFilled [vs ++ first] = trimFilled (if first.isEmpty then [vs] else []) ++ trimFilled [first] := by
  cases first with
  | nil => simp
  | cons c cs =>
    rw [trimFilled_cons (by simp), trimFilled_cons (by simp), Text.trim_blank_append hvs]
    rfl

theorem trimFilled_of_blank {ps : List (List Char)} (h : ∀ p ∈ ps, Text.Blank p) :
    trimFilled ps = List.replicate (ps.filter (!·.isEmpty)).length [] := by
  rw [trimFilled, List.eq_replicate_iff, List.length_map]
  refine ⟨rfl, fun item hitem => ?_⟩
  obtain ⟨p, hp, rfl⟩ := List.mem_map.1 hitem
  exact Text.trim_eq_nil_iff.2 (h p (List.mem_filter.1 hp).1)

theorem splitSpace_append_blanks (hclosed : Nesting.top.run xs = .top) (hblank : Text.Blank ws)
    (hsep : ∃ c ∈ ws, isTokenSeparator c = true) :
    splitSpace (xs ++ ws ++ ys) =
      splitSpace xs ++ List.replicate (strays xs ws ys).length [] ++ splitSpace ys := by
  obtain ⟨front, last, hxs, hends⟩ := exists_front_of_pieces xs
  obtain ⟨us, mids, vs, hws⟩ := exists_mids_of_pieces hblank hsep
  obtain ⟨first, rest, hys, hstarts⟩ := exists_rest_of_pieces ys
  have hpieces : ∀ p ∈ us :: (mids ++ [vs]), Text.Blank p := fun p hp =>
    (blank_of_mem_pieces hblank (hws ▸ hp)).1
  have hleft : pieces isTokenSeparator .top (xs ++ ws) =
      (front ++ (last ++ us) :: mids) ++ [vs] := by
    rw [pieces_join (fun _ => step_top_tokenSeparator) hxs (by rw [hclosed]; exact hws)]
    simp
  have hrun : Nesting.top.run (xs ++ ws) = .top := by
    rw [run_append, hclosed, run_top_blank hblank]
  have hall : pieces isTokenSeparator .top (xs ++ ws ++ ys) =
      (front ++ (last ++ us) :: mids) ++ (vs ++ first) :: rest :=
    pieces_join (fun _ => step_top_tokenSeparator) hleft (by rw [hrun]; exact hys)
  have hloose : loosePieces xs ws ys =
      (if last.isEmpty then [us] else []) ++ mids ++ (if first.isEmpty then [vs] else []) := by
    rw [loosePieces_eq hws, hends, hstarts]
    cases last.isEmpty <;> cases first.isEmpty <;> rfl
  have hstrays : List.replicate (strays xs ws ys).length [] = trimFilled (loosePieces xs ws ys) := by
    refine (trimFilled_of_blank fun p hp => hpieces p ?_).symm
    rw [hloose] at hp
    revert hp
    cases last.isEmpty <;> cases first.isEmpty <;> simp +contextual [or_imp]
  have hmiddle : (last ++ us) :: mids = [last ++ us] ++ mids := rfl
  have hbehind : (vs ++ first) :: rest = [vs ++ first] ++ rest := rfl
  have hrest : first :: rest = [first] ++ rest := rfl
  rw [hstrays, hloose, splitSpace_eq, splitSpace_eq, splitSpace_eq, hall, hxs, hys, hmiddle, hbehind,
    hrest]
  simp only [trimFilled_append, trimFilled_append_blank (hpieces us (by simp)),
    trimFilled_blank_append (hpieces vs (by simp)), List.append_assoc]

/-! ## Rows without strays -/

/-- Where all pieces between the first and the last are empty, only separators stand there. -/
theorem exists_separators {sep : Char → Bool} {n : Nesting} :
    ∀ {mids : List (List Char)} {us ws : List Char}, pieces sep n ws = us :: (mids ++ [vs]) →
      (∀ p ∈ mids, p = []) →
      ∃ seps, ws = us ++ seps ++ vs ∧ seps ≠ [] ∧ ∀ c ∈ seps, sep c = true := by
  intro mids
  induction mids generalizing n with
  | nil =>
    intro us ws hws _
    rcases pieces_inversion hws with ⟨hnil, -⟩ | ⟨c, ds, rfl, hc, -, hds⟩
    · exact absurd hnil (by simp)
    · rcases pieces_inversion hds.symm with ⟨-, rfl⟩ | ⟨_, es, -, -, -, hes⟩
      · exact ⟨[c], by simp, by simp, by simpa using hc⟩
      · exact absurd hes.symm (pieces_ne_nil sep .top es)
  | cons mid mids ih =>
    intro us ws hws hmids
    obtain rfl := hmids mid (by simp)
    rcases pieces_inversion hws with ⟨hnil, -⟩ | ⟨c, ds, rfl, hc, -, hds⟩
    · exact absurd hnil (by simp)
    · obtain ⟨seps, rfl, -, hseps⟩ := ih hds.symm fun p hp => hmids p (by simp [hp])
      exact ⟨c :: seps, by simp, by simp, by simpa using ⟨hc, hseps⟩⟩

theorem pieces_separators {sep : Char → Bool} {seps : List Char} (hseps : ∀ c ∈ seps, sep c = true)
    (hvs : Nesting.top.avoids sep vs = true) :
    pieces sep .top (seps ++ vs) = List.replicate seps.length [] ++ [vs] := by
  induction seps with
  | nil => exact pieces_eq_singleton hvs
  | cons c seps ih =>
    rw [List.cons_append, pieces, if_pos ⟨rfl, hseps c (by simp)⟩,
      ih fun d hd => hseps d (by simp [hd])]
    rfl

theorem strays_eq_nil_iff_of_pieces (hws : pieces isTokenSeparator .top ws = us :: (mids ++ [vs])) :
    strays xs ws ys = [] ↔ (us ≠ [] → endsFilled xs = true) ∧ (∀ p ∈ mids, p = []) ∧
      (vs ≠ [] → startsFilled ys = true) := by
  rw [strays, loosePieces_eq hws]
  cases endsFilled xs <;> cases startsFilled ys <;> simp [or_imp, forall_and]

/-- A row of blanks has no strays exactly if it is flush. -/
theorem strays_eq_nil_iff (hblank : Text.Blank ws) (hsep : ∃ c ∈ ws, isTokenSeparator c = true) :
    strays xs ws ys = [] ↔ Flush xs ws ys := by
  constructor
  · intro h
    obtain ⟨us, mids, vs, hws⟩ := exists_mids_of_pieces hblank hsep
    obtain ⟨hus, hmids, hvs⟩ := (strays_eq_nil_iff_of_pieces hws).1 h
    obtain ⟨seps, heq, hne, hseps⟩ := exists_separators hws hmids
    refine ⟨us, seps, vs, heq, hne, hseps, fun c hc => ?_, hus, hvs⟩
    have hpiece : ∀ p ∈ us :: (mids ++ [vs]), ∀ c ∈ p, isTokenSeparator c = false := fun p hp =>
      (blank_of_mem_pieces hblank (hws ▸ hp)).2
    rcases List.mem_append.1 hc with hc | hc
    · exact hpiece us (by simp) c hc
    · exact hpiece vs (by simp) c hc
  · rintro ⟨us, seps, vs, rfl, hne, hseps, hothers, hus, hvs⟩
    obtain ⟨c, seps, rfl⟩ := List.exists_cons_of_ne_nil hne
    have husBlank : Text.Blank us := fun d hd => hblank d (by simp [hd])
    have hvsBlank : Text.Blank vs := fun d hd => hblank d (by simp [hd])
    have hfirst : Nesting.top.avoids isTokenSeparator us = true :=
      (avoids_blank husBlank).2 fun d hd => hothers d (by simp [hd])
    have hlast : Nesting.top.avoids isTokenSeparator vs = true :=
      (avoids_blank hvsBlank).2 fun d hd => hothers d (by simp [hd])
    have hws : pieces isTokenSeparator .top (us ++ c :: seps ++ vs) =
        us :: (List.replicate seps.length [] ++ [vs]) := by
      rw [List.append_assoc, List.cons_append,
        pieces_append hfirst (run_top_blank husBlank) (hseps c (by simp)),
        pieces_separators (fun d hd => hseps d (by simp [hd])) hlast]
    exact (strays_eq_nil_iff_of_pieces hws).2 ⟨hus, fun p hp => List.eq_of_mem_replicate hp, hvs⟩

end Rows

/-! ## Layout -/

/-- Between two texts, where nothing is open, a space leaves the tokens of the two; any other row of
blanks with a separator leaves them with an empty token for each of its strays, so it may be replaced
by a space exactly if it is flush. -/
theorem splitSpace_layout {xs ws ys : List Char} (hclosed : Nesting.top.run xs = .top)
    (hblank : Text.Blank ws) (hsep : ∃ c ∈ ws, isTokenSeparator c = true) :
    splitSpace (xs ++ ' ' :: ys) = splitSpace xs ++ splitSpace ys ∧
      splitSpace (xs ++ ws ++ ys) =
        splitSpace xs ++ List.replicate (strays xs ws ys).length [] ++ splitSpace ys ∧
      (splitSpace (xs ++ ws ++ ys) = splitSpace (xs ++ ' ' :: ys) ↔ Flush xs ws ys) ∧
      ∀ cs, [] ∈ splitSpace cs ↔
        ∃ piece ∈ pieces isTokenSeparator .top cs, piece ≠ [] ∧ Text.Blank piece := by
  have hspace : splitSpace (xs ++ ' ' :: ys) = splitSpace xs ++ splitSpace ys :=
    splitSpace_append_space hclosed
  have hrow : splitSpace (xs ++ ws ++ ys) =
      splitSpace xs ++ List.replicate (strays xs ws ys).length [] ++ splitSpace ys :=
    splitSpace_append_blanks hclosed hblank hsep
  refine ⟨hspace, hrow, ?_, fun cs => nil_mem_splitSpace_iff⟩
  rw [hspace, hrow, List.append_left_inj, List.append_right_eq_self, List.replicate_eq_nil_iff,
    List.length_eq_zero_iff, strays_eq_nil_iff hblank hsep]

/-- A carriage return and a line feed right behind a token, and blanks in front of the next one. -/
theorem splitSpace_layout_lines :
    let xs := "$i from".toList
    let ws := "\r\n\t ".toList
    let ys := "1 to 3".toList
    Nesting.top.run xs = .top ∧ Text.Blank ws ∧ (∃ c ∈ ws, isTokenSeparator c = true) ∧
      strays xs ws ys = [] ∧
      splitSpace (xs ++ ' ' :: ys) = splitSpace xs ++ splitSpace ys ∧
      splitSpace (xs ++ ws ++ ys) =
        splitSpace xs ++ List.replicate (strays xs ws ys).length [] ++ splitSpace ys ∧
      (splitSpace (xs ++ ws ++ ys) = splitSpace (xs ++ ' ' :: ys) ↔ Flush xs ws ys) ∧
      ∀ cs, [] ∈ splitSpace cs ↔
        ∃ piece ∈ pieces isTokenSeparator .top cs, piece ≠ [] ∧ Text.Blank piece := by
  intro xs ws ys
  have hall : ws.all Text.isBlank = true := by decide
  have hblank : Text.Blank ws := List.all_eq_true.1 hall
  have hsep : ∃ c ∈ ws, isTokenSeparator c = true := ⟨'\n', by decide, by decide⟩
  exact ⟨by decide, hblank, hsep, by decide, splitSpace_layout (by decide) hblank hsep⟩

/-- A space before a line end of two characters, or a no-break space between spaces, makes the second
operand of a condition the third token. -/
theorem empty_tokens_shift :
    splitSpace "1 \r\n== 1".toList = ["1".toList, [], "==".toList, "1".toList] ∧
      splitSpace "1 == 1".toList = ["1".toList, "==".toList, "1".toList] ∧
      splitSpace "a \u00a0 b".toList = ["a".toList, [], "b".toList] ∧
      splitSpace "\r a".toList = [[], "a".toList] ∧ splitSpace "a \r".toList = ["a".toList, []] := by
  decide

end StyleExpand
