import StyleExpand.Value.Nesting
import StyleExpand.Proofs.Text.Trim

/-!
# What a scan meets where nothing is open

* `Nesting.avoids` : a scan meets no character of a class where nothing is open;
* `Nesting.deepen` : the same place inside more parentheses; `Nesting.run_deepen` : a text that closes
  no parenthesis of others is read there as it is outside;
* `pieces_eq_singleton`, `pieces_append` : a text without top-level separators is one piece;
* `unwrap?_parens` : which texts in parentheses are unwrapped;
* `splitComma_intercalate` : texts joined by commas are split again at these commas.
-/

namespace StyleExpand

namespace Nesting

variable {p q : Char → Bool} {n : Nesting} {c : Char} {cs ds : List Char}

/-! ## Characters where nothing is open -/

/-- A scan from `n` meets no character of the class `p` where nothing is open. -/
def avoids (p : Char → Bool) : Nesting → List Char → Bool
  | _, [] => true
  | n, c :: cs => !(decide (n = .top) && p c) && avoids p (n.step c) cs

@[simp] theorem avoids_nil : n.avoids p [] = true := rfl

theorem avoids_cons :
    n.avoids p (c :: cs) = true ↔ (n = .top → p c = false) ∧ (n.step c).avoids p cs = true := by
  rw [avoids, Bool.and_eq_true, Bool.not_eq_true', Bool.and_eq_false_imp, decide_eq_true_iff]

theorem avoids_append :
    n.avoids p (cs ++ ds) = true ↔ n.avoids p cs = true ∧ (n.run cs).avoids p ds = true := by
  induction cs generalizing n with
  | nil => simp
  | cons c cs ih => rw [List.cons_append, avoids_cons, avoids_cons, ih, run_cons, and_assoc]

theorem avoids_mono (hqp : ∀ c, q c = true → p c = true) (h : n.avoids p cs = true) :
    n.avoids q cs = true := by
  induction cs generalizing n with
  | nil => rfl
  | cons c cs ih =>
    rw [avoids_cons] at h ⊢
    refine ⟨fun htop => ?_, ih h.2⟩
    rw [← Bool.not_eq_true]
    intro hq
    simp [hqp c hq] at h
    exact h.1 htop

def isComma (c : Char) : Bool := c == ','

def isClosing (c : Char) : Bool := c == ')'

/-! ## Blanks -/

theorem step_top_blank (hc : Text.isBlank c = true) : top.step c = top := by
  have hne : ∀ d ∈ ['\\', '"', '\'', '(', ')'], c ≠ d := by
    rintro d hd rfl
    have hall : (['\\', '"', '\'', '(', ')'].all fun d => !Text.isBlank d) = true := by decide
    simpa [hc] using List.all_eq_true.1 hall c hd
  simp only [List.mem_cons, List.not_mem_nil, or_false, forall_eq_or_imp, forall_eq] at hne
  simp [step, top, hne]

theorem run_top_blank (h : Text.Blank cs) : top.run cs = top := by
  induction cs with
  | nil => rfl
  | cons c cs ih =>
    rw [run_cons, step_top_blank (h c (by simp)), ih fun d hd => h d (by simp [hd])]

theorem avoids_trim (h : top.avoids p cs = true) : top.avoids p (Text.trim cs) = true := by
  obtain ⟨as, bs, has, -, heq⟩ := Text.exists_eq_trim cs
  rw [heq, List.append_assoc, avoids_append, run_top_blank has, avoids_append] at h
  exact h.2.1

/-! ## Inside more parentheses -/

/-- The same place inside `k` more parentheses. -/
def deepen (k : Nat) (n : Nesting) : Nesting := { n with depth := n.depth + k }

theorem deepen_succ_ne_top (k : Nat) : n.deepen (k + 1) ≠ top := by
  intro h
  have : n.depth + (k + 1) = 0 := congrArg depth h
  omega

theorem step_deepen (k : Nat) (h : n = top → isClosing c = false) :
    (n.deepen k).step c = (n.step c).deepen k := by
  obtain ⟨depth, quote, escaped⟩ := n
  unfold step deepen
  dsimp only
  split
  · rfl
  · split
    · rfl
    · cases quote with
      | some q =>
        dsimp only
        split <;> rfl
      | none =>
        dsimp only
        split
        · rfl
        · split
          · simp only [mk.injEq, and_true]
            omega
          · split
            · rename_i hesc _ _ _ hclose
              have hdepth : depth ≠ 0 := by
                rintro rfl
                have hfree := h (by simpa [top] using hesc)
                simp [isClosing, hclose] at hfree
              simp only [mk.injEq, and_true]
              omega
            · rfl

/-- What closes no parenthesis of others is read the same inside more parentheses. -/
theorem run_deepen (k : Nat) (h : n.avoids isClosing cs = true) :
    (n.deepen k).run cs = (n.run cs).deepen k := by
  induction cs generalizing n with
  | nil => rfl
  | cons c cs ih =>
    rw [avoids_cons] at h
    rw [run_cons, run_cons, step_deepen k h.1, ih h.2]

/-- Inside one more parenthesis, such a text meets nothing where nothing is open. -/
theorem avoids_deepen (k : Nat) (h : n.avoids isClosing cs = true) :
    (n.deepen (k + 1)).avoids p cs = true := by
  induction cs generalizing n with
  | nil => rfl
  | cons c cs ih =>
    rw [avoids_cons] at h ⊢
    rw [step_deepen _ h.1]
    exact ⟨fun htop => absurd htop (deepen_succ_ne_top k), ih h.2⟩

theorem staysOpen_deepen : staysOpen (n.deepen 1) cs = true ↔ n.avoids isClosing cs = true := by
  induction cs generalizing n with
  | nil => simp [staysOpen]
  | cons c cs ih =>
    rw [staysOpen, Bool.and_eq_true, bne_iff_ne, avoids_cons]
    by_cases h : n = top → isClosing c = false
    · have hdepth : ((n.step c).deepen 1).depth ≠ 0 := by simp [deepen]
      rw [step_deepen 1 h, ih]
      exact and_congr_left' (iff_of_true hdepth h)
    · obtain ⟨rfl, hc⟩ : n = top ∧ isClosing c = true := by simpa using h
      obtain rfl : c = ')' := by simpa [isClosing] using hc
      have hdepth : ((top.deepen 1).step ')').depth = 0 := by decide
      simp [hdepth, hc]

end Nesting

open Nesting

/-! ## Pieces -/

variable {sep : Char → Bool} {n : Nesting} {c : Char} {cs ds inner : List Char}

theorem pieces_append (h : n.avoids sep cs = true) (htop : n.run cs = .top) (hc : sep c = true) :
    pieces sep n (cs ++ c :: ds) = cs :: pieces sep .top ds := by
  induction cs generalizing n with
  | nil =>
    obtain rfl : n = .top := htop
    rw [List.nil_append, pieces, if_pos ⟨rfl, hc⟩]
  | cons d cs ih =>
    rw [avoids_cons] at h
    have hsep : ¬ (n = .top ∧ sep d = true) := fun hd => by simp [h.1 hd.1] at hd
    rw [List.cons_append, pieces, if_neg hsep, ih h.2 htop, List.modifyHead_cons]

theorem pieces_eq_singleton (h : n.avoids sep cs = true) : pieces sep n cs = [cs] := by
  induction cs generalizing n with
  | nil => rfl
  | cons c cs ih =>
    rw [avoids_cons] at h
    have hsep : ¬ (n = .top ∧ sep c = true) := fun hc => by simp [h.1 hc.1] at hc
    rw [pieces, if_neg hsep, ih h.2, List.modifyHead_cons]

theorem isPrefix_of_head?_pieces {p : List Char} (h : p ∈ (pieces sep n cs).head?) : p <+: cs := by
  induction cs generalizing n p with
  | nil =>
    obtain rfl : [] = p := by simpa [pieces] using h
    exact List.nil_prefix
  | cons c cs ih =>
    rw [pieces] at h
    split at h
    · obtain rfl : [] = p := by simpa using h
      exact List.nil_prefix
    · rw [List.head?_modifyHead] at h
      obtain ⟨q, hq, rfl⟩ := Option.map_eq_some_iff.1 h
      exact List.cons_prefix_cons.2 ⟨rfl, ih hq⟩

theorem infix_of_mem_pieces {p : List Char} (h : p ∈ pieces sep n cs) : p <:+: cs := by
  induction cs generalizing n p with
  | nil =>
    obtain rfl : p = [] := by simpa [pieces] using h
    exact List.nil_infix
  | cons c cs ih =>
    rw [pieces] at h
    split at h
    · rcases List.mem_cons.1 h with rfl | h
      · exact List.nil_infix
      · exact (ih h).trans (List.suffix_cons c cs).isInfix
    -- all pieces but the first are pieces of the rest
    · cases hpieces : pieces sep (n.step c) cs with
      | nil => exact absurd hpieces (pieces_ne_nil sep _ cs)
      | cons q qs =>
        rw [hpieces, List.modifyHead_cons] at h
        rcases List.mem_cons.1 h with rfl | h
        · have hfirst : q ∈ (pieces sep (n.step c) cs).head? := by simp [hpieces]
          exact (List.cons_prefix_cons.2 ⟨rfl, isPrefix_of_head?_pieces hfirst⟩).isInfix
        · have hrest : p ∈ pieces sep (n.step c) cs := by simp [hpieces, h]
          exact (ih hrest).trans (List.suffix_cons c cs).isInfix

/-! ## Joined texts -/

def itemSeparator : List Char := [',', ' ']

theorem intercalate_cons {t : List Char} {ts : List (List Char)} (hne : ts ≠ []) :
    itemSeparator.intercalate (t :: ts) = t ++ ',' :: ' ' :: itemSeparator.intercalate ts := by
  obtain ⟨u, us, rfl⟩ := List.exists_cons_of_ne_nil hne
  simp [itemSeparator, List.intercalate_cons_cons]

theorem run_top_separator (cs : List Char) :
    Nesting.top.run (',' :: ' ' :: cs) = Nesting.top.run cs := by
  rw [run_cons, run_cons]
  rfl

/-- Behind joined texts the scan is where it is behind the last of them. -/
theorem run_intercalate : ∀ {ts : List (List Char)} (_ : ∀ x ∈ ts.dropLast, Nesting.top.run x = .top),
    Nesting.top.run (itemSeparator.intercalate ts) = Nesting.top.run (ts.getLast?.getD [])
  | [], _ => rfl
  | [t], _ => by simp
  | t :: u :: us, h => by
    rw [intercalate_cons (by simp), run_append, h t (by simp), run_top_separator,
      run_intercalate fun x hx => h x (by simp [hx])]
    simp

theorem avoids_intercalate {p : Char → Bool} (hcomma : p ',' = false) (hspace : p ' ' = false) :
    ∀ {ts : List (List Char)} (_ : ∀ x ∈ ts, Nesting.top.avoids p x = true)
      (_ : ∀ x ∈ ts.dropLast, Nesting.top.run x = .top),
      Nesting.top.avoids p (itemSeparator.intercalate ts) = true
  | [], _, _ => rfl
  | [t], h, _ => by simpa using h
  | t :: u :: us, h, hclosed => by
    have hrest : Nesting.top.avoids p (itemSeparator.intercalate (u :: us)) = true :=
      avoids_intercalate hcomma hspace (fun x hx => h x (List.mem_cons_of_mem t hx)) fun x hx =>
        hclosed x (by simp [hx])
    rw [intercalate_cons (by simp), avoids_append, hclosed t (by simp), avoids_cons, avoids_cons]
    exact ⟨h t (by simp), fun _ => hcomma, fun _ => hspace, hrest⟩

theorem pieces_intercalate {t : List Char} {ts : List (List Char)}
    (havoids : ∀ x ∈ t :: ts, Nesting.top.avoids isComma x = true)
    (hclosed : ∀ x ∈ (t :: ts).dropLast, Nesting.top.run x = .top) :
    pieces isComma .top (itemSeparator.intercalate (t :: ts)) = t :: ts.map (' ' :: ·) := by
  induction ts generalizing t with
  | nil =>
    rw [List.intercalate_singleton, pieces_eq_singleton (havoids t (by simp))]
    rfl
  | cons u us ih =>
    have hrest := ih (fun x hx => havoids x (List.mem_cons_of_mem t hx)) fun x hx =>
      hclosed x (by simp [hx])
    have hspace : pieces isComma .top (' ' :: itemSeparator.intercalate (u :: us)) =
        (' ' :: u) :: us.map (' ' :: ·) := by
      rw [pieces, if_neg (by decide), step_top_blank (by decide), hrest, List.modifyHead_cons]
    rw [intercalate_cons (by simp), pieces_append (havoids t (by simp)) (hclosed t (by simp)) (by decide),
      hspace, List.map_cons]

/-- Only empty pieces are left out, and of those not the last. -/
theorem trimItems_eq_map : ∀ {ps : List (List Char)},
    (∀ p ∈ ps.dropLast, p ≠ []) → trimItems ps = ps.map Text.trim
  | [], _ => rfl
  | [p], _ => rfl
  | p :: q :: ps, h => by
    have hp : p.isEmpty = false := by simpa using h p (by simp)
    rw [trimItems, hp, trimItems_eq_map fun x hx => h x (by simp [hx])]
    rfl

/-- Trimmed texts joined by commas are the items of the list that they make up, if nothing is open
behind each but the last, and the first of several is not empty. -/
theorem splitComma_intercalate {ts : List (List Char)} (hne : ts ≠ [])
    (htrim : ∀ x ∈ ts, Text.trim x = x) (havoids : ∀ x ∈ ts, Nesting.top.avoids isComma x = true)
    (hclosed : ∀ x ∈ ts.dropLast, Nesting.top.run x = .top) (hfirst : [] ∉ ts.dropLast.head?) :
    splitComma (itemSeparator.intercalate ts) = ts := by
  obtain ⟨t, ts, rfl⟩ := List.exists_cons_of_ne_nil hne
  have hitems : trimItems (t :: ts.map (' ' :: ·)) = (t :: ts.map (' ' :: ·)).map Text.trim := by
    refine trimItems_eq_map fun x hx => ?_
    rintro rfl
    cases ts with
    | nil => simp at hx
    | cons u us =>
      have hx : [] = t := by simpa using List.dropLast_subset _ hx
      exact hfirst (by simp [← hx])
  have hblank : ∀ x ∈ ts, Text.trim (' ' :: x) = x := fun x hx => by
    simpa using Text.trim_blanks Text.blank_space Text.blank_nil (htrim x (by simp [hx]))
  calc splitComma (itemSeparator.intercalate (t :: ts))
      = trimItems (pieces isComma .top (itemSeparator.intercalate (t :: ts))) := rfl
    _ = (t :: ts.map (' ' :: ·)).map Text.trim := by rw [pieces_intercalate havoids hclosed, hitems]
    _ = t :: ts := by
      rw [List.map_cons, htrim t (by simp), List.map_map]
      congr 1
      exact (List.map_congr_left hblank).trans (List.map_id ts)

/-! ## Wrapped items -/

theorem beforeEnd_append (suffix cs : List Char) : Text.beforeEnd suffix (cs ++ suffix) = some cs := by
  rw [Text.beforeEnd, List.reverse_append, Text.afterStart_append, Option.map_some,
    List.reverse_reverse]

/-- What stands in parentheses is unwrapped if it does not close the first of them. -/
theorem unwrap?_parens :
    unwrap? ('(' :: (inner ++ [')'])) = some inner ↔ Nesting.top.avoids isClosing inner = true := by
  have hopen : (⟨1, none, false⟩ : Nesting) = Nesting.top.deepen 1 := rfl
  rw [unwrap?, beforeEnd_append, hopen]
  dsimp only
  rw [← staysOpen_deepen]
  split
  · rename_i h
    exact iff_of_true rfl h
  · rename_i h
    exact iff_of_false (by simp) h

theorem avoids_parens {p : Char → Bool} (hp : p '(' = false)
    (h : Nesting.top.avoids isClosing inner = true) :
    Nesting.top.avoids p ('(' :: (inner ++ [')'])) = true := by
  have hopen : Nesting.top.step '(' = Nesting.top.deepen 1 := by decide
  rw [avoids_cons, hopen, avoids_append, run_deepen 1 h, avoids_cons]
  exact ⟨fun _ => hp, avoids_deepen 0 h, fun htop => absurd htop (deepen_succ_ne_top 0), rfl⟩

/-- A closing parenthesis that opens nothing else comes where nothing but its own is open. -/
theorem step_deepen_closing (h : (n.deepen 1).step ')' = .top) : n = .top := by
  obtain ⟨depth, quote, escaped⟩ := n
  unfold step deepen at h
  cases escaped with
  | true => simp [Nesting.top] at h
  | false =>
    cases quote with
    | none => simpa [Nesting.top] using h
    | some q =>
      by_cases hq : ')' = q
      · subst hq
        simp [Nesting.top] at h
      · simp [Nesting.top, hq] at h

theorem run_parens (h : Nesting.top.avoids isClosing inner = true) :
    Nesting.top.run ('(' :: (inner ++ [')'])) = .top ↔ Nesting.top.run inner = .top := by
  have hopen : Nesting.top.step '(' = Nesting.top.deepen 1 := by decide
  rw [run_cons, hopen, run_append, run_deepen 1 h]
  refine ⟨fun hclosed => step_deepen_closing hclosed, fun hclosed => ?_⟩
  rw [hclosed]
  decide

theorem trim_parens (inner : List Char) :
    Text.trim ('(' :: (inner ++ [')'])) = '(' :: (inner ++ [')']) := by
  rw [Text.trim_eq_self_iff]
  refine ⟨fun c hc => ?_, fun c hc => ?_⟩
  · obtain rfl : '(' = c := by simpa using hc
    decide
  · obtain rfl : ')' = c := by simpa using hc
    decide

end StyleExpand
