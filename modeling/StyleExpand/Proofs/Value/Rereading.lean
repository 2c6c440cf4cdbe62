import StyleExpand.Proofs.Value.Literal

/-!
# Which lists are read as they were written

A list that was read from a text can have lost something by it: a blank behind a backslash is trimmed
away, and the backslash then stands right before the comma or the parenthesis behind the item; and an
empty item in front of others is read only if it was a blank.

* `pieces_inversion` : where the first piece of a text ends;
* `Value.Legible.first_item` : if the first item of a list is read as it was written, it ends where it did;
* `Value.literal_writeItems_iff` : the lists that are read as they were written;
* `Value.elements_ofText_iff` : the values whose text has the same elements as they have.
-/

namespace StyleExpand

open Nesting

/-- A text is its first piece, or goes on behind it with a separator where nothing is open. -/
theorem pieces_inversion {sep : Char → Bool} {n : Nesting} {cs first : List Char}
    {others : List (List Char)} (h : pieces sep n cs = first :: others) :
    (others = [] ∧ first = cs) ∨ ∃ c ds, cs = first ++ c :: ds ∧ sep c = true ∧
      n.run first = .top ∧ others = pieces sep .top ds := by
  induction cs generalizing n first with
  | nil =>
    obtain ⟨rfl, rfl⟩ : [] = first ∧ [] = others := by simpa [pieces] using h
    exact .inl ⟨rfl, rfl⟩
  | cons c cs ih =>
    rw [pieces] at h
    split at h
    · rename_i hc
      obtain ⟨rfl, rfl⟩ := List.cons.inj h
      exact .inr ⟨c, cs, rfl, hc.2, hc.1, by rw [hc.1]⟩
    · obtain ⟨p, ps, heq⟩ := List.exists_cons_of_ne_nil (pieces_ne_nil sep (n.step c) cs)
      rw [heq, List.modifyHead_cons] at h
      obtain ⟨rfl, rfl⟩ := List.cons.inj h
      rcases ih heq with ⟨rfl, rfl⟩ | ⟨d, ds, rfl, hd, hrun, rfl⟩
      · exact .inl ⟨rfl, rfl⟩
      · exact .inr ⟨d, ds, rfl, hd, hrun, rfl⟩

/-- Of two beginnings of a text with as many solid characters, one that ends in a solid character is
no longer than the other. -/
theorem eq_of_solids {cs ds : List Char} (hinitial : cs <+: ds) (hsolids : solids cs = solids ds)
    (hlast : ∀ c ∈ ds.getLast?, isSolid c = true) : cs = ds := by
  obtain ⟨rest, rfl⟩ := hinitial
  rcases List.eq_nil_or_concat rest with rfl | ⟨front, c, rfl⟩
  · simp
  · have hc : isSolid c = true := hlast c (by simp)
    have hone : solids [c] = 1 := by simp [solids_cons, hc]
    rw [List.concat_eq_append, solids_append, solids_append, hone] at hsolids
    omega

theorem getLast?_parens (cs : List Char) :
    ∀ c ∈ ('(' :: (cs ++ [')'])).getLast?, isSolid c = true := by
  intro c hc
  rw [← List.cons_append, List.getLast?_concat] at hc
  obtain rfl := Option.some.inj hc
  decide

namespace Value

/-! ## Items and the values they come from -/

theorem eq_toList_of_ofItem {item : List Char} {text : String} (h : ofItem item = .scalar text) :
    item = text.toList := by
  unfold ofItem at h
  split at h
  · rw [literal_false] at h
    cases h
  · obtain rfl := scalar.inj h
    simp

theorem exists_inner_of_ofItem {item : List Char} {items : List Value}
    (h : ofItem item = .list items) :
    ∃ inner, item = '(' :: (inner ++ [')']) ∧ literal false inner = .list items := by
  unfold ofItem at h
  split at h
  · rename_i inner hinner
    exact ⟨inner, eq_of_unwrap? hinner, h⟩
  · cases h

/-- The text of a list that was read from its own parentheses is read as the list. -/
theorem literal_of_ofItem_writeItem {items : List Value}
    (h : ofItem (writeItem (.list items)) = .list items) :
    literal false (writeItems items) = .list items := by
  obtain ⟨inner, heq, hinner⟩ := exists_inner_of_ofItem h
  rw [writeItem_list] at heq
  obtain rfl := (List.append_left_inj _).1 (List.cons.inj heq).2
  exact hinner

section Legible

variable {nested : Bool} {u v : Value}

theorem Legible.trim_writeItem (h : Legible nested v) : Text.trim v.writeItem = v.writeItem := by
  cases h with
  | scalar trimmed => rwa [writeItem_scalar]
  | list => rw [writeItem_list, trim_parens]

theorem Legible.head_ne_comma (h : Legible nested v) : ∀ c ∈ v.writeItem.head?, c ≠ ',' := by
  rintro c hc rfl
  cases h with
  | @scalar _ text _ whole =>
    rw [writeItem_scalar] at hc
    obtain ⟨cs, hcs⟩ := List.head?_eq_some_iff.1 (Option.mem_def.1 hc)
    rw [hcs, avoids_cons] at whole
    exact absurd (whole.1 rfl) (by decide)
  | list =>
    rw [writeItem_list] at hc
    exact absurd (Option.some.inj hc) (by decide)

theorem Legible.eq_empty (h : Legible nested v) (hv : v.writeItem = []) : v = .scalar "" := by
  cases h with
  | @scalar _ text =>
    rw [writeItem_scalar] at hv
    rw [String.toList_eq_nil_iff.1 hv]
  | list =>
    rw [writeItem_list] at hv
    cases hv

theorem Legible.leads (h : Legible nested v) (rest : List Char) :
    Text.Leads (v.writeItem ++ ',' :: rest) := by
  have hleads := (Text.trim_eq_self_iff.1 h.trim_writeItem).1
  cases hwrite : v.writeItem with
  | nil =>
    intro c hc
    obtain rfl : ',' = c := by simpa using hc
    decide
  | cons d ds =>
    rw [hwrite] at hleads
    exact fun c hc => hleads c (by simpa using hc)

/-- If the first item of a list is read as it was written, it ends where it did. -/
theorem Legible.first_item (h : Legible nested u) {rest first others : List Char}
    (heq : u.writeItem ++ ',' :: rest = first ++ ',' :: others)
    (hread : ofItem (Text.trim first) = u) : first = u.writeItem ∧ rest = others := by
  have hleads : Text.Leads first := (h.leads rest).of_isPrefix (heq ▸ List.prefix_append ..)
  have hinitial : Text.trim first <+: u.writeItem ++ ',' :: rest := by
    rw [heq]
    exact hleads.trim_isPrefix.trans (List.prefix_append ..)
  have htrim : Text.trim first = u.writeItem := by
    cases u with
    | scalar text => rw [writeItem_scalar, eq_toList_of_ofItem hread]
    | list items =>
      obtain ⟨inner, hinner, -⟩ := exists_inner_of_ofItem hread
      have hsolids : solids (Text.trim first) = solids (writeItem (.list items)) := by
        rw [← hread, solids_writeItem_ofItem]
      -- both texts end with a parenthesis, so neither can be longer than the other
      rcases List.prefix_or_prefix_of_prefix hinitial (List.prefix_append _ _) with hp | hp
      · exact eq_of_solids hp hsolids (by rw [writeItem_list]; exact getLast?_parens _)
      · exact (eq_of_solids hp hsolids.symm (by rw [hinner]; exact getLast?_parens _)).symm
  obtain ⟨blanks, hblank, hfirst⟩ := Text.exists_eq_trimEnd first
  have htrimEnd : Text.trimEnd first = u.writeItem := by
    rw [← htrim, Text.trim, Text.trimStart_of_leads hleads]
  rw [htrimEnd] at hfirst
  rw [hfirst, List.append_assoc, List.append_cancel_left_eq] at heq
  cases blanks with
  | nil => exact ⟨by rw [hfirst, List.append_nil], (List.cons.inj heq).2⟩
  | cons b bs =>
    have hb := hblank b (by simp)
    obtain rfl : ',' = b := (List.cons.inj heq).1
    exact absurd hb (by decide)

theorem Legible.steady_of_run (h : Legible nested v) (hsteady : steady true v = true)
    (hrun : Nesting.top.run v.writeItem = .top) : steady false v = true := by
  induction h with
  | scalar =>
    rw [writeItem_scalar] at hrun
    simp [steady, hrun]
  | @list _ items ne_nil legible ih =>
    obtain ⟨init, w, rfl⟩ := (List.eq_nil_or_concat items).resolve_left ne_nil
    rw [List.concat_eq_append] at *
    rw [steady, steadyAll_append_singleton, Bool.and_eq_true, Bool.and_eq_true,
      List.all_eq_true] at hsteady
    have hinit : ∀ x ∈ init, Reads true false x := fun x hx =>
      (legible x (by simp [hx])).reads (hsteady.2.1 x hx)
    have hlast : Reads true true w := (legible w (by simp)).reads hsteady.2.2
    rw [writeItem_list, run_parens (avoids_writeItems hinit hlast), run_writeItems hinit] at hrun
    rw [steady, steadyAll_append_singleton, hsteady.1, List.all_eq_true.2 hsteady.2.1,
      ih w (by simp) hsteady.2.2 hrun]
    rfl

end Legible

/-! ## Rows of items -/

section Rows

variable {nested : Bool} {v : Value} {us : List Value}

theorem trim_space (cs : List Char) : Text.trim (' ' :: cs) = Text.trim cs := by
  rw [Text.trim, Text.trim, ← List.singleton_append, Text.trimStart_blank_append Text.blank_space]

theorem splitComma_space_eq {cs first : List Char} {others : List (List Char)}
    (h : pieces isComma .top cs = first :: others) :
    splitComma (' ' :: cs) = trimItems ((' ' :: first) :: others) := by
  have hspace : pieces isComma .top (' ' :: cs) = (' ' :: first) :: others := by
    rw [pieces, if_neg (by decide), step_top_blank (by decide), h, List.modifyHead_cons]
  exact congrArg trimItems hspace

/-- Behind a blank, the first item of a text is read even if it is empty: it is the whole text, or
ends at a top-level comma. -/
theorem splitComma_inversion {cs : List Char} {vs : List Value}
    (h : (splitComma (' ' :: cs)).map ofItem = v :: vs) :
    (vs = [] ∧ ofItem (Text.trim cs) = v) ∨ ∃ first rest, cs = first ++ ',' :: rest ∧
      Nesting.top.run first = .top ∧ ofItem (Text.trim first) = v ∧
      (splitComma rest).map ofItem = vs := by
  obtain ⟨first, others, heq⟩ := List.exists_cons_of_ne_nil (pieces_ne_nil isComma .top cs)
  rw [splitComma_space_eq heq] at h
  rcases pieces_inversion heq with ⟨rfl, rfl⟩ | ⟨c, rest, rfl, hc, hrun, rfl⟩
  · rw [trimItems, trim_space] at h
    obtain ⟨hv, hvs⟩ := List.cons.inj h
    exact .inl ⟨hvs.symm, hv⟩
  · obtain rfl : c = ',' := by simpa [isComma] using hc
    have hkept : trimItems ((' ' :: first) :: pieces isComma .top rest) =
        Text.trim first :: splitComma rest := by
      obtain ⟨p, ps, hrest⟩ := List.exists_cons_of_ne_nil (pieces_ne_nil isComma .top rest)
      have hsplit : splitComma rest = trimItems (p :: ps) := congrArg trimItems hrest
      rw [hrest, trimItems, trim_space, hsplit]
      rfl
    rw [hkept] at h
    obtain ⟨hv, hvs⟩ := List.cons.inj h
    exact .inr ⟨first, rest, rfl, hrun, hv, hvs⟩

theorem writeItems_cons (hne : us ≠ []) :
    writeItems (v :: us) = v.writeItem ++ ',' :: ' ' :: writeItems us := by
  obtain ⟨u, us, rfl⟩ := List.exists_cons_of_ne_nil hne
  rw [writeItems]

/-- An item whose text is read as the item is steady, if the lists that are read as they were written
are. -/
theorem steady_of_ofItem (hlists : ∀ xs, v = .list xs →
      literal false (writeItems xs) = .list xs → steady true v = true)
    (h : ofItem v.writeItem = v) : steady true v = true := by
  cases v with
  | scalar => rfl
  | list items => exact hlists items rfl (literal_of_ofItem_writeItem h)

/-- Items that are read as they were written, behind a blank, are steady. -/
theorem steadyAll_of_reread (hlegible : ∀ u ∈ us, Legible nested u)
    (hlists : ∀ u ∈ us, ∀ xs, u = .list xs →
      literal false (writeItems xs) = .list xs → steady true u = true)
    (h : (splitComma (' ' :: writeItems us)).map ofItem = us) : steadyAll true us = true := by
  induction us with
  | nil => rfl
  | cons u us ih =>
    have hu := hlegible u (by simp)
    cases us with
    | nil =>
      rw [steadyAll]
      refine steady_of_ofItem (hlists u (by simp)) ?_
      rcases splitComma_inversion h with ⟨-, hread⟩ | ⟨_, rest, -, -, -, hrest⟩
      · rwa [writeItems, hu.trim_writeItem] at hread
      · simp [splitComma_ne_nil] at hrest
    | cons w ws =>
      rcases splitComma_inversion h with ⟨hnil, -⟩ | ⟨first, rest, heq, hrun, hread, hrest⟩
      · cases hnil
      · rw [writeItems_cons (by simp)] at heq
        obtain ⟨rfl, rfl⟩ := hu.first_item heq hread
        rw [hu.trim_writeItem] at hread
        have hfirst := hu.steady_of_run (steady_of_ofItem (hlists u (by simp)) hread) hrun
        rw [steadyAll, hfirst, ih (fun x hx => hlegible x (List.mem_cons_of_mem u hx))
          (fun x hx => hlists x (List.mem_cons_of_mem u hx)) hrest]
        rfl

theorem Legible.writeItem_eq_nil (h : Legible nested v) {tail first rest : List Char}
    (heq : v.writeItem ++ tail = first ++ ',' :: rest) (hblank : Text.trim first = []) :
    v.writeItem = [] := by
  cases hwrite : v.writeItem with
  | nil => rfl
  | cons c cs =>
    have hcomma := h.head_ne_comma c (by simp [hwrite])
    have hleads := (Text.trim_eq_self_iff.1 h.trim_writeItem).1 c (by simp [hwrite])
    rw [hwrite] at heq
    cases first with
    | nil => exact absurd (List.cons.inj heq).1 hcomma
    | cons d ds =>
      obtain rfl : c = d := (List.cons.inj heq).1
      obtain ⟨as, bs, has, hbs, hfirst⟩ := Text.exists_eq_trim (c :: ds)
      rw [hblank, List.append_nil] at hfirst
      have hc : Text.isBlank c = true :=
        Text.blank_append has hbs c (by rw [← hfirst]; exact List.mem_cons_self ..)
      simp [hc] at hleads

/-- Items are not read as if an empty one stood before them. -/
theorem not_reread_shifted (hne : us ≠ []) (hlegible : ∀ u ∈ us, Legible nested u) :
    (splitComma (' ' :: writeItems us)).map ofItem ≠ .scalar "" :: us := by
  induction us with
  | nil => exact absurd rfl hne
  | cons u us ih =>
    intro h
    have hu := hlegible u (by simp)
    rcases splitComma_inversion h with ⟨hnil, -⟩ | ⟨first, rest, heq, -, hread, hrest⟩
    · cases hnil
    · have hblank : Text.trim first = [] := by simpa using eq_toList_of_ofItem hread
      cases us with
      | nil =>
        rw [writeItems] at heq
        have hnil := hu.writeItem_eq_nil (by rw [List.append_nil]; exact heq) hblank
        simp [hnil] at heq
      | cons w ws =>
        rw [writeItems_cons (by simp)] at heq
        -- the first item is empty, so the shift goes on behind it
        obtain rfl := hu.eq_empty (hu.writeItem_eq_nil heq hblank)
        obtain ⟨-, rfl⟩ := hu.first_item heq hread
        exact ih (by simp) (fun x hx => hlegible x (List.mem_cons_of_mem _ hx)) hrest

theorem splitComma_comma (cs : List Char) : splitComma (',' :: cs) = splitComma cs := by
  obtain ⟨p, ps, heq⟩ := List.exists_cons_of_ne_nil (pieces_ne_nil isComma .top cs)
  have hpieces : pieces isComma .top (',' :: cs) = [] :: p :: ps := by
    rw [pieces, if_pos (by decide), heq]
  calc splitComma (',' :: cs) = trimItems ([] :: p :: ps) := congrArg trimItems hpieces
    _ = trimItems (p :: ps) := by rw [trimItems]; rfl
    _ = splitComma cs := (congrArg trimItems heq).symm

theorem head_writeItems_ne_comma (hlegible : ∀ u ∈ us, Legible nested u)
    (h : startsEmpty us = false) : ∀ c ∈ (writeItems us).head?, c ≠ ',' := by
  match us, h with
  | [], _ => simp [writeItems]
  | [u], _ =>
    rw [writeItems]
    exact (hlegible u (by simp)).head_ne_comma
  | u :: w :: ws, h =>
    have hu := hlegible u (by simp)
    rw [writeItems_cons (by simp)]
    intro c hc
    cases hwrite : u.writeItem with
    | nil =>
      rw [hu.eq_empty hwrite] at h
      simp [startsEmpty] at h
    | cons d ds =>
      rw [hwrite] at hc
      exact hu.head_ne_comma c (by rw [hwrite]; exact hc)

theorem splitComma_space {cs : List Char} (h : ∀ c ∈ cs.head?, c ≠ ',') :
    splitComma (' ' :: cs) = splitComma cs := by
  obtain ⟨first, others, heq⟩ := List.exists_cons_of_ne_nil (pieces_ne_nil isComma .top cs)
  have hitems : splitComma cs = trimItems (first :: others) := congrArg trimItems heq
  rw [hitems, splitComma_space_eq heq]
  rcases pieces_inversion heq with ⟨rfl, rfl⟩ | ⟨c, rest, rfl, hc, -, rfl⟩
  · rw [trimItems, trimItems, trim_space]
  · obtain rfl : c = ',' := by simpa [isComma] using hc
    obtain ⟨p, ps, hrest⟩ := List.exists_cons_of_ne_nil (pieces_ne_nil isComma .top rest)
    have hfirst : first.isEmpty = false := by
      cases first with
      | nil => exact absurd rfl (h ',' (by simp))
      | cons => rfl
    rw [hrest, trimItems, trimItems, trim_space, hfirst]
    rfl

/-- A list whose items are read as they were written is steady. -/
theorem steady_of_literal (hlegible : ∀ u ∈ us, Legible nested u)
    (hlists : ∀ u ∈ us, ∀ xs, u = .list xs →
      literal false (writeItems xs) = .list xs → steady true u = true)
    (h : literal false (writeItems us) = .list us) : steady true (.list us) = true := by
  rw [literal_false] at h
  have h := list.inj h
  cases hstart : startsEmpty us with
  | true =>
    obtain ⟨w, ws, rfl⟩ : ∃ w ws, us = .scalar "" :: w :: ws := by
      match us, hstart with
      | .scalar text :: w :: ws, hstart =>
        obtain rfl : text = "" := by simpa [startsEmpty] using hstart
        exact ⟨w, ws, rfl⟩
    have hdropped : splitComma (writeItems (.scalar "" :: w :: ws)) =
        splitComma (' ' :: writeItems (w :: ws)) := by
      rw [writeItems_cons (by simp), writeItem_scalar]
      exact splitComma_comma _
    rw [hdropped] at h
    exact absurd h (not_reread_shifted (by simp) fun x hx => hlegible x (List.mem_cons_of_mem _ hx))
  | false =>
    have hspace := splitComma_space (head_writeItems_ne_comma hlegible hstart)
    rw [steady, hstart, steadyAll_of_reread hlegible hlists (by rwa [hspace])]
    rfl

/-- Of the lists that a text can hold, exactly the steady ones are read as they were written. -/
theorem literal_writeItems_iff (hne : us ≠ []) (hlegible : ∀ u ∈ us, Legible nested u) :
    literal false (writeItems us) = .list us ↔ steady true (.list us) = true := by
  have hnested : ∀ {nested : Bool} {v : Value}, Legible nested v → ∀ xs, v = .list xs →
      literal false (writeItems xs) = .list xs → steady true v = true := by
    intro nested v h
    induction h with
    | scalar => exact fun _ hxs => nomatch hxs
    | list _ hitems ih =>
      rintro xs hxs hread
      obtain rfl := list.inj hxs
      exact steady_of_literal hitems ih hread
  exact ⟨steady_of_literal hlegible fun u hu => hnested (hlegible u hu),
    literal_writeItems hne hlegible⟩

end Rows

/-! ## Elements -/

/-- Values whose text has the elements of the value: no list of one list or of one empty text, and no
list of several that is not read as it was written. -/
def iterable : Value → Bool
  | .scalar _ => true
  | .list [.scalar text] => !text.isEmpty
  | .list [.list _] => false
  | .list items => steady true (.list items)

theorem elements_scalar (text : String) :
    elements (.scalar text) = if text.isEmpty then [] else [.scalar text] := rfl

/-- No text that holds one item has the elements of a list, texts in a list of their own apart: it
would have the parentheses of the list. -/
theorem length_ne_one_of_elements {items : List Value} (hne : items ≠ [])
    (hitems : ∀ text, items ≠ [.scalar text])
    (h : (literal true (writeItems items)).elements = items) :
    (splitComma (writeItems items)).length ≠ 1 := by
  intro hlength
  obtain ⟨item, hitem⟩ := List.length_eq_one_iff.1 hlength
  rw [literal_eq, hitem, List.map_singleton] at h
  have hsolids : solids item = solids (writeItems items) := by
    simpa [hitem] using solids_splitComma (writeItems items)
  have hread : (ofItem item).elements = items := h
  cases hvalue : ofItem item with
  | scalar text =>
    rw [hvalue, elements_scalar] at hread
    split at hread
    · exact hne hread.symm
    · exact hitems text hread.symm
  | list xs =>
    have hwrite := solids_writeItem_ofItem item
    rw [hvalue] at hread hwrite
    obtain rfl : xs = items := hread
    rw [writeItem_list, solids_parens] at hwrite
    omega

theorem elements_writeItems_iff {items : List Value} (hne : items ≠ [])
    (hitems : ∀ text, items ≠ [.scalar text]) :
    (literal true (writeItems items)).elements = items ↔
      items.length ≠ 1 ∧ literal false (writeItems items) = .list items := by
  constructor
  · intro h
    have hlength : ((splitComma (writeItems items)).map ofItem).length ≠ 1 := by
      rw [List.length_map]
      exact length_ne_one_of_elements hne hitems h
    rw [literal_eq, ofItems_of_length_ne hlength] at h
    have hread : (splitComma (writeItems items)).map ofItem = items := h
    rw [hread] at hlength
    rw [literal_false, hread]
    exact ⟨hlength, rfl⟩
  · rintro ⟨hlength, h⟩
    rw [literal_collapse h hlength]
    rfl

/-- A list that a text can hold has the elements of its own text exactly if it is iterable. -/
theorem elements_list_iff {nested : Bool} {items : List Value} (hne : items ≠ [])
    (hlegible : ∀ v ∈ items, Legible nested v) :
    (literal true (writeItems items)).elements = items ↔ iterable (.list items) = true := by
  match items, hlegible with
  | [], _ => exact absurd rfl hne
  | [.scalar text], hlegible =>
    rw [writeItems, writeItem_scalar, literal_scalar (hlegible _ (by simp)), elements_scalar, iterable]
    cases text.isEmpty <;> simp
  | [.list xs], _ =>
    rw [elements_writeItems_iff (by simp) (by simp), iterable]
    simp
  | v :: w :: ws, hlegible =>
    rw [elements_writeItems_iff (by simp) (by simp), literal_writeItems_iff (by simp) hlegible,
      iterable]
    · simp
    · simp
    · simp

/-- A value that is read from a text has the elements of its own text exactly if it is iterable. -/
theorem elements_ofText_iff (raw : String) :
    (ofText (ofText raw).render).elements = (ofText raw).elements ↔ (ofText raw).iterable = true := by
  have hlegible := forall_legible raw.toList
  have hne : (splitComma raw.toList).map ofItem ≠ [] := by simpa using splitComma_ne_nil raw.toList
  have hlist {nested : Bool} {items : List Value} (hne : items ≠ [])
      (hlegible : ∀ v ∈ items, Legible nested v) :
      (ofText (Value.list items).render).elements = items ↔ iterable (.list items) = true := by
    rw [ofText, render, String.toList_ofList, write]
    exact elements_list_iff hne hlegible
  generalize hitems : (splitComma raw.toList).map ofItem = items at hlegible hne
  have hvalue : ofText raw = ofItems true items := by rw [ofText, literal_eq, hitems]
  rw [hvalue]
  by_cases hlength : items.length = 1
  · obtain ⟨v, rfl⟩ := List.length_eq_one_iff.1 hlength
    have hone : ofItems true [v] = v := rfl
    have hv := hlegible v (by simp)
    rw [hone]
    cases v with
    | scalar text => simp [ofText, render, write, literal_scalar hv, iterable]
    | list xs =>
      cases hv with
      | list ne_nil hinner => exact hlist ne_nil hinner
  · rw [ofItems_of_length_ne hlength]
    exact hlist hne hlegible

end Value

end StyleExpand
