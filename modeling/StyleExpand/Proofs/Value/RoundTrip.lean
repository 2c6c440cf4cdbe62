import StyleExpand.Proofs.Value.Nesting
import StyleExpand.Value.Basic

/-!
# Lists are read as they were written

A list reaches a reader as a text: its items joined by commas, the lists among them in parentheses.

* `Value.Legible` : values whose texts are single items; `Value.steady` : nothing is open where an item
  ends, and no list of several begins with the empty text;
* `Value.literal_writeItems` : the items of a legible and steady list are read as they were written;
* `Value.Sound`, `Value.literal_render` : values whose texts say by themselves that they are such.
-/

namespace StyleExpand.Value

open Nesting

/-! ## Texts of items -/

theorem writeItem_scalar (text : String) : writeItem (.scalar text) = text.toList := by rw [writeItem]

theorem writeItem_list (items : List Value) :
    writeItem (.list items) = '(' :: (writeItems items ++ [')']) := by
  rw [writeItem, List.cons_append]

theorem writeItems_eq_intercalate : ∀ items : List Value,
    writeItems items = itemSeparator.intercalate (items.map writeItem)
  | [] => rfl
  | [item] => by rw [writeItems]; simp
  | item :: next :: items => by
    rw [writeItems, writeItems_eq_intercalate (next :: items)]
    exact (intercalate_cons (by simp)).symm

theorem ofItems_false (vs : List Value) : ofItems false vs = .list vs := by
  unfold ofItems
  split <;> simp

theorem ofItems_of_length_ne {vs : List Value} (h : vs.length ≠ 1) (collapse : Bool) :
    ofItems collapse vs = .list vs := by
  match vs with
  | [] => rfl
  | [v] => exact absurd rfl h
  | _ :: _ :: _ => rfl

/-- Values whose texts are single items; those with `nested` also close no parenthesis around them. -/
inductive Legible : Bool → Value → Prop where
  | scalar {nested : Bool} {text : String} (trimmed : Text.trim text.toList = text.toList)
      (whole : Nesting.top.avoids isComma text.toList = true)
      (contained : nested = true → Nesting.top.avoids isClosing text.toList = true)
      (bare : unwrap? text.toList = none) : Legible nested (.scalar text)
  | list {nested : Bool} {items : List Value} (ne_nil : items ≠ [])
      (items_legible : ∀ v ∈ items, Legible true v) : Legible nested (.list items)

def startsEmpty : List Value → Bool
  | .scalar text :: _ :: _ => text.isEmpty
  | _ => false

mutual

/-- Nothing is open behind a text, unless it is at the very end, where `last` says so; and no list of
several values begins with the empty text. -/
def steady (last : Bool) : Value → Bool
  | .scalar text => last || decide (Nesting.top.run text.toList = .top)
  | .list items => !startsEmpty items && steadyAll last items

def steadyAll (last : Bool) : List Value → Bool
  | [] => true
  | [v] => steady last v
  | v :: w :: vs => steady false v && steadyAll last (w :: vs)

end

mutual

theorem steady_mono {last : Bool} : ∀ v : Value, steady false v = true → steady last v = true
  | .scalar _, h => by
    rw [steady, Bool.false_or] at h
    rw [steady, h, Bool.or_true]
  | .list items, h => by
    rw [steady, Bool.and_eq_true] at h ⊢
    exact ⟨h.1, steadyAll_mono items h.2⟩

theorem steadyAll_mono {last : Bool} :
    ∀ items : List Value, steadyAll false items = true → steadyAll last items = true
  | [], _ => rfl
  | [v], h => by
    rw [steadyAll] at h ⊢
    exact steady_mono v h
  | v :: w :: vs, h => by
    rw [steadyAll, Bool.and_eq_true] at h ⊢
    exact ⟨h.1, steadyAll_mono (w :: vs) h.2⟩

end

/-! ## Reading what was written -/

/-- The text of an item is one item that reads as the value; behind it nothing is open unless it is
`last`, and if it is `nested` it closes no parenthesis around it. -/
structure Reads (nested last : Bool) (v : Value) : Prop where
  trimmed : Text.trim v.writeItem = v.writeItem
  whole : Nesting.top.avoids isComma v.writeItem = true
  contained : nested = true → Nesting.top.avoids isClosing v.writeItem = true
  closed : last = false → Nesting.top.run v.writeItem = .top
  ofItem_eq : ofItem v.writeItem = v

section Row

variable {init : List Value} {v : Value} {nested last : Bool}

theorem nil_notMem_head? (hfirst : startsEmpty (init ++ [v]) = false)
    (hinit : ∀ w ∈ init, ofItem w.writeItem = w) : [] ∉ (init.map writeItem).head? := by
  intro hmem
  cases init with
  | nil => simp at hmem
  | cons w ws =>
    have hw : w.writeItem = [] := by simpa using hmem
    have hempty : w = .scalar "" := by
      rw [← hinit w (by simp), hw]
      rfl
    subst hempty
    cases ws <;> simp [startsEmpty] at hfirst

theorem run_dropLast (hinit : ∀ w ∈ init, Reads nested false w) :
    ∀ x ∈ ((init ++ [v]).map writeItem).dropLast, Nesting.top.run x = .top := by
  rw [List.map_append, List.map_singleton, List.dropLast_concat]
  exact List.forall_mem_map.2 fun w hw => (hinit w hw).closed rfl

/-- Items that are read as they were written make up a list that is. -/
theorem literal_of_reads (hinit : ∀ w ∈ init, Reads nested false w) (hlast : Reads nested last v)
    (hfirst : startsEmpty (init ++ [v]) = false) :
    literal false (writeItems (init ++ [v])) = .list (init ++ [v]) := by
  have hall : ∀ w ∈ init ++ [v], ∃ last, Reads nested last w := by
    intro w hw
    rcases List.mem_append.1 hw with hw | hw
    · exact ⟨false, hinit w hw⟩
    · exact ⟨last, List.mem_singleton.1 hw ▸ hlast⟩
  have hsplit : splitComma (writeItems (init ++ [v])) = (init ++ [v]).map writeItem := by
    rw [writeItems_eq_intercalate]
    refine splitComma_intercalate (by simp) ?_ ?_ (run_dropLast hinit) ?_
    · exact List.forall_mem_map.2 fun w hw => (hall w hw).elim fun _ h => h.trimmed
    · exact List.forall_mem_map.2 fun w hw => (hall w hw).elim fun _ h => h.whole
    · rw [List.map_append, List.map_singleton, List.dropLast_concat]
      exact nil_notMem_head? hfirst fun w hw => (hinit w hw).ofItem_eq
  rw [literal_eq, hsplit, ofItems_false, List.map_map]
  congr 1
  refine (List.map_congr_left fun w hw => ?_).trans (List.map_id _)
  exact (hall w hw).elim fun _ h => h.ofItem_eq

theorem run_writeItems (hinit : ∀ w ∈ init, Reads nested false w) :
    Nesting.top.run (writeItems (init ++ [v])) = Nesting.top.run v.writeItem := by
  rw [writeItems_eq_intercalate, run_intercalate (run_dropLast hinit)]
  simp

theorem avoids_writeItems (hinit : ∀ w ∈ init, Reads true false w) (hlast : Reads true last v) :
    Nesting.top.avoids isClosing (writeItems (init ++ [v])) = true := by
  rw [writeItems_eq_intercalate]
  refine avoids_intercalate (by decide) (by decide) (List.forall_mem_map.2 fun w hw => ?_)
    (run_dropLast hinit)
  rcases List.mem_append.1 hw with hw | hw
  · exact (hinit w hw).contained rfl
  · exact List.mem_singleton.1 hw ▸ hlast.contained rfl

/-- The parentheses around such items make them one item that is read as it was written. -/
theorem reads_list (hinit : ∀ w ∈ init, Reads true false w) (hlast : Reads true last v)
    (hfirst : startsEmpty (init ++ [v]) = false) : Reads nested last (.list (init ++ [v])) := by
  have hwrite := writeItem_list (init ++ [v])
  have hcontained := avoids_writeItems hinit hlast
  refine ⟨?_, ?_, fun _ => ?_, fun hopen => ?_, ?_⟩
  · rw [hwrite, trim_parens]
  · rw [hwrite]
    exact avoids_parens (by decide) hcontained
  · rw [hwrite]
    exact avoids_parens (by decide) hcontained
  · rw [hwrite, run_parens hcontained, run_writeItems hinit]
    exact hlast.closed hopen
  · rw [hwrite, ofItem, unwrap?_parens.2 hcontained]
    exact literal_of_reads hinit hlast hfirst

theorem steadyAll_append_singleton : ∀ {init : List Value},
    steadyAll last (init ++ [v]) = (init.all (steady false) && steady last v)
  | [] => by simp [steadyAll]
  | [w] => by simp [steadyAll]
  | w :: x :: xs => by
    have hrest : steadyAll last (x :: xs ++ [v]) = ((x :: xs).all (steady false) && steady last v) :=
      steadyAll_append_singleton
    rw [List.cons_append, List.cons_append, steadyAll, ← List.cons_append, hrest, ← Bool.and_assoc]
    rfl

end Row

/-- The text of a legible and steady value is an item that reads as the value. -/
theorem Legible.reads {nested last : Bool} {v : Value} (h : Legible nested v)
    (hsteady : steady last v = true) : Reads nested last v := by
  induction h generalizing last with
  | @scalar nested text trimmed whole contained bare =>
    rw [steady, Bool.or_eq_true, decide_eq_true_iff] at hsteady
    rw [← writeItem_scalar] at trimmed whole contained bare hsteady
    refine ⟨trimmed, whole, contained, fun hlast => ?_, ?_⟩
    · simpa [hlast] using hsteady
    · rw [ofItem, bare, writeItem_scalar]
      simp
  | @list nested items ne_nil _ ih =>
    obtain ⟨init, v, rfl⟩ := (List.eq_nil_or_concat items).resolve_left ne_nil
    rw [steady, List.concat_eq_append, steadyAll_append_singleton, Bool.and_eq_true, Bool.and_eq_true,
      List.all_eq_true, Bool.not_eq_true'] at hsteady
    rw [List.concat_eq_append] at *
    exact reads_list (fun w hw => ih w (by simp [hw]) (hsteady.2.1 w hw)) (ih v (by simp) hsteady.2.2)
      hsteady.1

/-! ## Whole values -/

theorem literal_writeItems {nested : Bool} {items : List Value} (hne : items ≠ [])
    (h : ∀ v ∈ items, Legible nested v) (hsteady : steady true (.list items) = true) :
    literal false (writeItems items) = .list items := by
  obtain ⟨init, v, rfl⟩ := (List.eq_nil_or_concat items).resolve_left hne
  rw [steady, List.concat_eq_append, steadyAll_append_singleton, Bool.and_eq_true, Bool.and_eq_true,
    List.all_eq_true, Bool.not_eq_true'] at hsteady
  rw [List.concat_eq_append] at h ⊢
  exact literal_of_reads (fun w hw => (h w (by simp [hw])).reads (hsteady.2.1 w hw))
    ((h v (by simp)).reads hsteady.2.2) hsteady.1

theorem literal_collapse {cs : List Char} {items : List Value} (h : literal false cs = .list items)
    (hlength : items.length ≠ 1) : literal true cs = .list items := by
  rw [literal_eq, ofItems_false] at h
  rw [literal_eq, list.inj h, ofItems_of_length_ne hlength]

theorem literal_scalar {nested : Bool} {text : String} (h : Legible nested (.scalar text)) :
    literal true text.toList = .scalar text := by
  obtain ⟨trimmed, whole, -, bare⟩ := h
  have hsplit : splitComma text.toList = [text.toList] := by
    have hpieces : pieces isComma .top text.toList = [text.toList] := pieces_eq_singleton whole
    calc splitComma text.toList = trimItems (pieces isComma .top text.toList) := rfl
      _ = [text.toList] := by rw [hpieces, trimItems, trimmed]
  rw [literal_eq, hsplit, List.map_singleton, ofItem, bare]
  simp [ofItems]

/-! ## Sound values -/

/-- A text that stands for itself among the items of a list, wherever it stands. -/
structure SoundText (cs : List Char) : Prop where
  trimmed : Text.trim cs = cs
  free : Nesting.top.avoids (fun c => c == ',' || c == ')') cs = true
  closed : Nesting.top.run cs = .top
  bare : unwrap? cs = none

instance (cs : List Char) : Decidable (SoundText cs) :=
  decidable_of_iff (Text.trim cs = cs ∧
      Nesting.top.avoids (fun c => c == ',' || c == ')') cs = true ∧ Nesting.top.run cs = .top ∧
      unwrap? cs = none)
    ⟨fun ⟨ht, hf, hc, hb⟩ => ⟨ht, hf, hc, hb⟩, fun ⟨ht, hf, hc, hb⟩ => ⟨ht, hf, hc, hb⟩⟩

/-- Sound texts, and lists of sound values of which no list of several begins with the empty text. -/
inductive Sound : Value → Prop where
  | scalar {text : String} (sound : SoundText text.toList) : Sound (.scalar text)
  | list {items : List Value} (ne_nil : items ≠ []) (items_sound : ∀ v ∈ items, Sound v)
      (first : 2 ≤ items.length → items.head? ≠ some (.scalar "")) : Sound (.list items)

theorem Sound.legible {v : Value} (h : Sound v) (nested : Bool) : Legible nested v := by
  induction h generalizing nested with
  | scalar sound =>
    refine .scalar sound.trimmed (avoids_mono ?_ sound.free) (fun _ => avoids_mono ?_ sound.free)
      sound.bare
    · simp [isComma]
    · simp [isClosing]
  | list ne_nil _ _ ih => exact .list ne_nil fun v hv => ih v hv true

theorem startsEmpty_of_first {items : List Value}
    (first : 2 ≤ items.length → items.head? ≠ some (.scalar "")) : startsEmpty items = false := by
  match items, first with
  | [], _ => rfl
  | [v], _ => cases v <;> rfl
  | .list _ :: _ :: _, _ => rfl
  | .scalar text :: _ :: _, first => simpa [startsEmpty] using first (by simp)

theorem Sound.steady {v : Value} (h : Sound v) : v.steady false = true := by
  induction h with
  | scalar sound => simp [Value.steady, sound.closed]
  | @list items ne_nil _ first ih =>
    obtain ⟨init, v, rfl⟩ := (List.eq_nil_or_concat items).resolve_left ne_nil
    rw [List.concat_eq_append] at *
    rw [Value.steady, startsEmpty_of_first first, steadyAll_append_singleton, ih v (by simp),
      List.all_eq_true.2 fun w hw => ih w (by simp [hw])]
    rfl

/-- A sound list is read as it was written, and with `collapse` so are a sound text and a sound list
of several values. -/
theorem literal_render (v : Value) (h : Sound v) :
    (∀ items, v = .list items → literal false v.render.toList = v) ∧
      ((∀ items, v = .list items → 2 ≤ items.length) → ofText v.render = v) := by
  cases h with
  | @scalar text sound =>
    refine ⟨fun items hv => by simp at hv, fun _ => ?_⟩
    have hread := literal_scalar ((Sound.scalar sound).legible false)
    simpa [ofText, render, write] using hread
  | @list items ne_nil items_sound first =>
    have hsound : Sound (.list items) := .list ne_nil items_sound first
    have hread : literal false (writeItems items) = .list items :=
      literal_writeItems ne_nil (fun v hv => (items_sound v hv).legible false)
        (steady_mono _ hsound.steady)
    have hrender : (Value.list items).render.toList = writeItems items := by
      rw [render, write, String.toList_ofList]
    rw [ofText, hrender]
    exact ⟨fun _ _ => hread, fun hlength => literal_collapse hread (by have := hlength items rfl; omega)⟩

/-- A list with a blank item, an empty list, a list in a list of one, and texts with parentheses, quotes
and escaped commas. -/
theorem literal_render_nested :
    let v : Value := .list [.list [.list [.scalar "a\\,b"]], .scalar "", .list [.scalar ""],
      .scalar "(c) f(d, 'e)')", .list [.scalar "\"x, y\"", .scalar ""]]
    Sound v ∧ v.render = "((a\\,b)), , (), (c) f(d, 'e)'), (\"x, y\", )" ∧
      literal false v.render.toList = v ∧ ofText v.render = v := by
  intro v
  have htext {text : String} (h : SoundText text.toList) : Sound (.scalar text) := .scalar h
  have hone {w : Value} (h : Sound w) : Sound (.list [w]) := .list (by simp) (by simpa using h) (by simp)
  have hsound : Sound v := by
    refine .list (by simp) ?_ (by simp)
    simp only [List.mem_cons, List.not_mem_nil, or_false, forall_eq_or_imp, forall_eq]
    refine ⟨hone (hone (htext (by decide))), htext (by decide), hone (htext (by decide)),
      htext (by decide), .list (by simp) ?_ (by simp)⟩
    simp only [List.mem_cons, List.not_mem_nil, or_false, forall_eq_or_imp, forall_eq]
    exact ⟨htext (by decide), htext (by decide)⟩
  have hread := literal_render v hsound
  exact ⟨hsound, by decide, hread.1 _ rfl, hread.2 fun items hv => by rw [← list.inj hv]; decide⟩

end StyleExpand.Value
