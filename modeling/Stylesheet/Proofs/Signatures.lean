import Mathlib.Data.List.Forall2
import Stylesheet.Builtin.Basic
import Stylesheet.Proofs.ExactValues

/-!
# What built-in functions accept

A built-in function has a signature, the kinds of its arguments place by place; the functions that read
or change a component of a colour have one for either use. This file says of every function and all
arguments what becomes of the call.

* `Builtin.Fits`: the arguments are as many as a signature has places and each is of the kind of its
  place. For `extract` the second one is also the place of an item.
* `Builtin.Blames`: what a call is blamed for otherwise. It is the count if no signature has that many
  places, else the first argument that is not of its kind (`FirstWrong`), and for `extract` at last the
  index.

**A call succeeds exactly if its arguments fit, and else fails for what it is blamed for**
(`Builtin.apply_answers`). Most functions read their arguments one by one, from left to right. Each reading
is either a value or a complaint about that argument (`Reads`), and a row of them is judged as a whole
(`Judged.bind`). A function that passes its arguments on with one more behind them is judged by the
arguments that it was given (`Judged.of_concat`).
-/

namespace Stylesheet

/-- A kind of argument. -/
inductive ArgumentKind where
  /-- A number, with or without a unit. -/
  | number
  /-- A colour. -/
  | color
  /-- A text, in quotes or not. -/
  | string
  /-- Any node at all. -/
  | any
  deriving Repr, DecidableEq

namespace ArgumentKind

/-- The word for a kind in a complaint; of `any` there can be none. -/
def word : ArgumentKind → String
  | number => "number"
  | color => "color"
  | string => "string"
  | any => "value"

/-- The nodes of a kind. -/
inductive Admits : ArgumentKind → Node → Prop
  | number (q : Quantity) : Admits .number (.number q)
  | color (c : Color) : Admits .color (.color c)
  | quoted (value : String) (quote : Char) : Admits .string (.quoted value quote)
  | text (value : String) : Admits .string (.text value)
  | any (node : Node) : Admits .any node

end ArgumentKind

/-- The complaint about the first argument that is not of its kind. -/
inductive FirstWrong (called : String) : List ArgumentKind → List Node → EvalError → Prop
  | here {kind : ArgumentKind} {kinds : List ArgumentKind} {node : Node} {nodes : List Node}
      (h : ¬kind.Admits node) :
      FirstWrong called (kind :: kinds) (node :: nodes)
        (.wrongArgument called kind.word node.toSource)
  | later {kind : ArgumentKind} {kinds : List ArgumentKind} {node : Node} {nodes : List Node}
      {e : EvalError} (hfirst : kind.Admits node) (h : FirstWrong called kinds nodes e) :
      FirstWrong called (kind :: kinds) (node :: nodes) e

/-- The number is the place of an item: a whole number between one and the count of the items. -/
def IsPlaceAmong (items : List Node) (x : Float) : Prop :=
  ∃ n : Nat, 1 ≤ n ∧ n ≤ items.length ∧ exactValue? x = some (n : ℚ)

namespace Builtin

/-- The signatures of a function, at most one for each count of arguments. -/
def signatures : Builtin → List (List ArgumentKind)
  | rgb | hsl => [[.number, .number, .number]]
  | rgba | hsla => [[.number, .number, .number, .number]]
  | red | green | blue | alpha | hue | saturation | lightness => [[.color], [.color, .number]]
  | lighten | darken => [[.color, .number]]
  | floor | ceil | round | abs | percentage => [[.number]]
  | e => [[.string]]
  | length => [[.any]]
  | extract => [[.any, .number]]

/-- How many arguments a function takes. -/
def arity (f : Builtin) : Arity :=
  match f.signatures with
  | [kinds] => .exactly kinds.length
  | _ => .oneOrTwo

/-- The arguments are those that a function takes. -/
structure Fits (f : Builtin) (nodes : List Node) : Prop where
  /-- They are of the kinds of a signature. -/
  kinds : ∃ kinds ∈ f.signatures, List.Forall₂ ArgumentKind.Admits kinds nodes
  /-- The index of `extract` is the place of an item. -/
  index : f = .extract → ∀ list q, nodes = [list, .number q] → IsPlaceAmong list.items q.value

/-- What is wrong with the arguments of a function: the count, else the first one of the wrong kind,
else the index. -/
inductive Blames (f : Builtin) (called : String) (nodes : List Node) : EvalError → Prop
  | count (h : ∀ kinds ∈ f.signatures, kinds.length ≠ nodes.length) :
      Blames f called nodes (.argumentCount called f.arity nodes.length)
  | kind {kinds : List ArgumentKind} {e : EvalError} (hkinds : kinds ∈ f.signatures)
      (hcount : kinds.length = nodes.length) (h : FirstWrong called kinds nodes e) :
      Blames f called nodes e
  | index {list : Node} {q : Quantity} (hf : f = .extract) (hnodes : nodes = [list, .number q])
      (h : ¬IsPlaceAmong list.items q.value) :
      Blames f called nodes (.indexOutOfRange called (Decimal.floatText q.value))

end Builtin

/-! ## Success and blame exclude each other

So it is enough to prove one direction for each function: it succeeds and the arguments fit, or it fails
and they are blamed for that. The equivalences follow. -/

section exclusion

variable {called : String} {kinds : List ArgumentKind} {nodes : List Node} {e e' : EvalError}

/-- Where an argument is wrong, not all of them are right. -/
lemma FirstWrong.not_forall₂ (h : FirstWrong called kinds nodes e) :
    ¬List.Forall₂ ArgumentKind.Admits kinds nodes := by
  induction h with
  | here h =>
    intro hall
    exact h (List.forall₂_cons.mp hall).1
  | later _ _ ih =>
    intro hall
    exact ih (List.forall₂_cons.mp hall).2

/-- There is one first argument that is wrong, and one complaint about it. -/
lemma FirstWrong.unique (h : FirstWrong called kinds nodes e) (h' : FirstWrong called kinds nodes e') :
    e = e' := by
  induction h with
  | here h =>
    cases h' with
    | here => rfl
    | later hfirst => exact absurd hfirst h
  | later hfirst _ ih =>
    cases h' with
    | here h' => exact absurd hfirst h'
    | later _ h' => exact ih h'

/-- The complaint is about an argument that is there, and about one of the kinds. -/
lemma FirstWrong.exists_eq (h : FirstWrong called kinds nodes e) :
    ∃ kind ∈ kinds, ∃ node ∈ nodes, e = .wrongArgument called kind.word node.toSource := by
  induction h with
  | @here kind _ node => exact ⟨kind, List.mem_cons_self, node, List.mem_cons_self, rfl⟩
  | later _ _ ih =>
    obtain ⟨kind, hkind, node, hnode, he⟩ := ih
    exact ⟨kind, List.mem_cons_of_mem _ hkind, node, List.mem_cons_of_mem _ hnode, he⟩

/-- What is wrong stays so without the last argument, if that is right. -/
lemma FirstWrong.of_concat {kind : ArgumentKind} {node : Node} (hadmits : kind.Admits node)
    (hcount : kinds.length = nodes.length)
    (h : FirstWrong called (kinds ++ [kind]) (nodes ++ [node]) e) : FirstWrong called kinds nodes e := by
  induction kinds generalizing nodes with
  | nil =>
    obtain rfl := List.length_eq_zero_iff.mp hcount.symm
    cases h with
    | here h => exact absurd hadmits h
    | later _ h => cases h
  | cons first kinds ih =>
    cases nodes with
    | nil => cases hcount
    | cons head nodes =>
      cases h with
      | here h => exact .here h
      | later hfirst h => exact .later hfirst (ih (Nat.succ.inj hcount) h)

namespace Builtin

variable {f : Builtin}

/-- The count of arguments decides which signature is meant. -/
lemma eq_of_mem_signatures {kinds kinds' : List ArgumentKind} (h : kinds ∈ f.signatures)
    (h' : kinds' ∈ f.signatures) (hlength : kinds.length = kinds'.length) : kinds = kinds' := by
  cases f <;> simp only [signatures, List.mem_cons, List.not_mem_nil, or_false] at h h' <;> grind

/-- What is left to blame once the kinds are right. -/
lemma Blames.of_forall₂ (h : f.Blames called nodes e) (hkinds : kinds ∈ f.signatures)
    (hall : List.Forall₂ ArgumentKind.Admits kinds nodes) :
    ∃ list q, f = .extract ∧ nodes = [list, .number q] ∧ ¬IsPlaceAmong list.items q.value ∧
      e = .indexOutOfRange called (Decimal.floatText q.value) := by
  cases h with
  | count h => exact absurd hall.length_eq (h kinds hkinds)
  | kind hkinds' hcount h =>
    rw [eq_of_mem_signatures hkinds' hkinds (hcount.trans hall.length_eq.symm)] at h
    exact absurd hall h.not_forall₂
  | index hf hnodes h => exact ⟨_, _, hf, hnodes, h, rfl⟩

/-- Arguments that fit are not blamed. -/
lemma Fits.not_blames (h : f.Fits nodes) : ¬f.Blames called nodes e := by
  intro hblames
  obtain ⟨kinds, hkinds, hall⟩ := h.kinds
  obtain ⟨list, q, hf, hnodes, hindex, -⟩ := hblames.of_forall₂ hkinds hall
  exact hindex (h.index hf list q hnodes)

/-- If the kinds are right, only the index of `extract` is to blame. -/
lemma Blames.eq_indexOutOfRange {list : Node} {q : Quantity}
    (h : extract.Blames called [list, .number q] e) :
    e = .indexOutOfRange called (Decimal.floatText q.value) := by
  have hkinds : [.any, .number] ∈ extract.signatures := List.mem_singleton_self _
  obtain ⟨_, _, -, hnodes, -, he⟩ := h.of_forall₂ hkinds (.cons (.any _) (.cons (.number _) .nil))
  cases hnodes
  exact he

/-- Arguments are blamed for one thing. -/
lemma Blames.unique (h : f.Blames called nodes e) (h' : f.Blames called nodes e') : e = e' := by
  cases h with
  | count h =>
    cases h' with
    | count => rfl
    | kind hkinds hcount => exact absurd hcount (h _ hkinds)
    | index hf hnodes h' =>
      subst hf hnodes
      exact Blames.eq_indexOutOfRange (.count h)
  | kind hkinds hcount h =>
    cases h' with
    | count h' => exact absurd hcount (h' _ hkinds)
    | kind hkinds' hcount' h' =>
      rw [eq_of_mem_signatures hkinds' hkinds (hcount'.trans hcount.symm)] at h'
      exact h.unique h'
    | index hf hnodes h' =>
      subst hf hnodes
      exact Blames.eq_indexOutOfRange (.kind hkinds hcount h)
  | index hf hnodes h =>
    subst hf hnodes
    exact h'.eq_indexOutOfRange.symm

end Builtin

end exclusion

/-! ## Reading arguments

Functions read their arguments from the left and stop at the first complaint, which is the complaint about
the first wrong argument. -/

/-- A reading of one argument: a value if the node is of the kind, and else the complaint about it. -/
inductive Reads {α : Type} (called : String) (kind : ArgumentKind) (node : Node) :
    Except EvalError α → Prop
  | value (h : kind.Admits node) (a : α) : Reads called kind node (.ok a)
  | complaint (h : ¬kind.Admits node) :
      Reads called kind node (.error (.wrongArgument called kind.word node.toSource))

/-- A reading of all arguments: a value if each is of its kind, and else the complaint about the first
one that is not. -/
inductive Judged {α : Type} (called : String) (kinds : List ArgumentKind) (nodes : List Node) :
    Except EvalError α → Prop
  | value (h : List.Forall₂ ArgumentKind.Admits kinds nodes) (a : α) : Judged called kinds nodes (.ok a)
  | complaint {e : EvalError} (h : FirstWrong called kinds nodes e) :
      Judged called kinds nodes (.error e)

namespace Judged

variable {α β : Type} {called : String} {kind : ArgumentKind} {kinds : List ArgumentKind} {node : Node}
  {nodes : List Node}

/-- The first argument is read before the others. -/
lemma bind {x : Except EvalError α} {k : α → Except EvalError β} (hx : Reads called kind node x)
    (hk : ∀ a, Judged called kinds nodes (k a)) :
    Judged called (kind :: kinds) (node :: nodes) (x >>= k) := by
  cases hx with
  | value h a =>
    show Judged called _ _ (k a)
    generalize hk a = hrest
    generalize k a = r at hrest ⊢
    cases hrest with
    | value hall b => exact .value (.cons h hall) b
    | complaint hwrong => exact .complaint (.later h hwrong)
  | complaint h => exact .complaint (.here h)

/-- One more argument of the right kind behind the others changes nothing. -/
lemma of_concat {r : Except EvalError α} (hadmits : kind.Admits node)
    (hcount : kinds.length = nodes.length)
    (h : Judged called (kinds ++ [kind]) (nodes ++ [node]) r) : Judged called kinds nodes r := by
  cases h with
  | value hall a =>
    have hfront := List.forall₂_take_append _ _ _ hall
    rw [← hcount, List.take_left] at hfront
    exact .value hfront a
  | complaint hwrong => exact .complaint (hwrong.of_concat hadmits hcount)

end Judged

namespace Arguments

variable {called : String} {nodes : List Node} {place : Nat} {node : Node}

/-- A number is read from a number, and from nothing else. -/
lemma number_reads (h : nodes[place]? = some node) :
    Reads called .number node (number ⟨called, nodes⟩ place) := by
  unfold number
  dsimp only
  rw [h]
  cases node with
  | number q => exact .value (.number q) q
  | _ => exact .complaint (fun hadmits => by cases hadmits)

/-- A colour is read from a colour, and from nothing else. -/
lemma color_reads (h : nodes[place]? = some node) :
    Reads called .color node (color ⟨called, nodes⟩ place) := by
  unfold color
  dsimp only
  rw [h]
  cases node with
  | color c => exact .value (.color c) c
  | _ => exact .complaint (fun hadmits => by cases hadmits)

end Arguments

/-! ## The functions

Functions come in families that read their arguments in the same way. There is one lemma for each family,
and the case split over all functions only picks the family. -/

namespace Builtin

/-- A call of a function ends as its arguments deserve. -/
inductive Answered (f : Builtin) (called : String) (nodes : List Node) : Except EvalError Node → Prop
  | value (h : f.Fits nodes) (v : Node) : Answered f called nodes (.ok v)
  | complaint {e : EvalError} (h : f.Blames called nodes e) : Answered f called nodes (.error e)

variable {f : Builtin} {called : String} {nodes : List Node}

/-- Arguments in the right count, read one by one. -/
lemma Answered.of_judged {kinds : List ArgumentKind} {r : Except EvalError Node} (hf : f ≠ .extract)
    (hkinds : kinds ∈ f.signatures) (hcount : kinds.length = nodes.length)
    (h : Judged called kinds nodes r) : Answered f called nodes r := by
  cases h with
  | value hall v => exact .value ⟨⟨kinds, hkinds, hall⟩, fun hextract => absurd hextract hf⟩ v
  | complaint hwrong => exact .complaint (.kind hkinds hcount hwrong)

/-- A function of one signature checks the count before it reads. -/
lemma Answered.of_expectCount {kinds : List ArgumentKind} {count : Nat} {body : Except EvalError Node}
    (hkinds : f.signatures = [kinds]) (hlength : kinds.length = count)
    (hbody : kinds.length = nodes.length → Answered f called nodes body) :
    Answered f called nodes (Arguments.expectCount ⟨called, nodes⟩ count >>= fun _ => body) := by
  subst hlength
  unfold Arguments.expectCount
  split
  · next hcount => exact hbody hcount.symm
  · next hcount =>
    have harity : f.arity = .exactly kinds.length := by rw [arity, hkinds]
    rw [← harity]
    refine .complaint (.count ?_)
    rw [hkinds]
    intro other hother
    rw [List.mem_singleton.mp hother]
    exact Ne.symm hcount

/-- A function of one signature, which is not that of `extract`. -/
lemma Answered.of_signature {kinds : List ArgumentKind} {count : Nat} {body : Except EvalError Node}
    (hkinds : f.signatures = [kinds]) (hlength : kinds.length = count) (hindex : kinds ≠ [.any, .number])
    (hbody : kinds.length = nodes.length → Judged called kinds nodes body) :
    Answered f called nodes (Arguments.expectCount ⟨called, nodes⟩ count >>= fun _ => body) := by
  have hf : f ≠ .extract := by
    rintro rfl
    cases hkinds
    exact hindex rfl
  refine .of_expectCount hkinds hlength fun hcount => ?_
  exact .of_judged hf (hkinds ▸ List.mem_singleton_self kinds) hcount (hbody hcount)

end Builtin

namespace Arguments

variable {called : String} {nodes : List Node}

/-- Four numbers are read one by one. -/
lemma colorOfFour_judged (a b c d : Node)
    (build : Quantity → Quantity → Quantity → Quantity → Color) :
    Judged called [.number, .number, .number, .number] [a, b, c, d]
      (colorOfFour ⟨called, [a, b, c, d]⟩ build) := by
  let args : Arguments := ⟨called, [a, b, c, d]⟩
  have hread : colorOfFour args build =
      args.number 0 >>= fun p => args.number 1 >>= fun q => args.number 2 >>= fun r =>
        args.number 3 >>= fun s => pure (.color (build p q r s)) := by
    have hrange : List.range args.nodes.length = [0, 1, 2, 3] := rfl
    have hcount : args.expectCount 4 = .ok () := rfl
    simp only [colorOfFour, hcount, numbers, hrange, List.mapM_cons, List.mapM_nil, bind_assoc,
      pure_bind]
    rfl
  rw [hread]
  refine .bind (number_reads rfl) fun p => .bind (number_reads rfl) fun q => ?_
  exact .bind (number_reads rfl) fun r => .bind (number_reads rfl) fun s => .value .nil _

end Arguments

namespace Builtin

variable {f : Builtin} {called : String} {nodes : List Node}

/-- The functions of one number. -/
lemma answered_of_number (hkinds : f.signatures = [[.number]]) (g : Quantity → Quantity) :
    Answered f called nodes (Arguments.expectCount ⟨called, nodes⟩ 1 >>= fun _ =>
      Arguments.number ⟨called, nodes⟩ 0 >>= fun q => pure (.number (g q))) := by
  refine .of_signature hkinds rfl (by simp) fun hcount => ?_
  obtain ⟨node, rfl⟩ := List.length_eq_one_iff.mp hcount.symm
  exact .bind (Arguments.number_reads rfl) fun q => .value .nil _

/-- The functions of four numbers. -/
lemma answered_of_four (hkinds : f.signatures = [[.number, .number, .number, .number]])
    (build : Quantity → Quantity → Quantity → Quantity → Color) :
    Answered f called nodes (Arguments.colorOfFour ⟨called, nodes⟩ build) := by
  refine .of_signature hkinds rfl (by simp) fun hcount => ?_
  obtain ⟨a, b, c, d, rfl⟩ := List.length_eq_four.mp hcount.symm
  exact Arguments.colorOfFour_judged a b c d build

/-- The functions of three numbers pass them on with a fourth. -/
lemma answered_of_three (hkinds : f.signatures = [[.number, .number, .number]])
    (build : Quantity → Quantity → Quantity → Quantity → Color) :
    Answered f called nodes (Arguments.expectCount ⟨called, nodes⟩ 3 >>= fun _ =>
      (Arguments.append ⟨called, nodes⟩ (.number (.plain 1.0))).colorOfFour build) := by
  refine .of_signature hkinds rfl (by simp) fun hcount => ?_
  obtain ⟨a, b, c, rfl⟩ := List.length_eq_three.mp hcount.symm
  exact .of_concat (.number (.plain 1.0)) hcount (Arguments.colorOfFour_judged a b c _ build)

/-- The functions that read or change a component of a colour. -/
lemma answered_of_component (hkinds : f.signatures = [[.color], [.color, .number]])
    (read : Color → Quantity) (change : Color → Quantity → Color) :
    Answered f called nodes (Arguments.component ⟨called, nodes⟩ read change) := by
  have hf : f ≠ .extract := by
    rintro rfl
    cases hkinds
  have harity : f.arity = .oneOrTwo := by rw [arity, hkinds]
  have hother (hone : nodes.length ≠ 1) (htwo : nodes.length ≠ 2) :
      f.Blames called nodes (.argumentCount called .oneOrTwo nodes.length) := by
    rw [← harity]
    refine .count fun kinds hmem => ?_
    simp only [hkinds, List.mem_cons, List.not_mem_nil, or_false] at hmem
    rcases hmem with rfl | rfl
    · exact hone.symm
    · exact htwo.symm
  rcases nodes with _ | ⟨first, _ | ⟨second, _ | ⟨third, rest⟩⟩⟩
  · exact .complaint (hother (by simp) (by simp))
  · refine .of_judged hf (hkinds ▸ List.mem_cons_self) rfl ?_
    exact .bind (Arguments.color_reads rfl) fun c => .value .nil _
  · refine .of_judged hf (hkinds ▸ List.mem_cons_of_mem _ List.mem_cons_self) rfl ?_
    exact .bind (Arguments.color_reads rfl) fun c =>
      .bind (Arguments.number_reads rfl) fun q => .value .nil _
  · exact .complaint (hother (by simp) (by simp))

/-- The functions that move the lightness of a colour. -/
lemma answered_of_shift (hkinds : f.signatures = [[.color, .number]]) (direction : Float) :
    Answered f called nodes (Arguments.shiftLightness ⟨called, nodes⟩ direction) := by
  refine .of_signature hkinds rfl (by simp) fun hcount => ?_
  obtain ⟨first, second, rfl⟩ := List.length_eq_two.mp hcount.symm
  exact .bind (Arguments.color_reads rfl) fun c =>
    .bind (Arguments.number_reads rfl) fun q => .value .nil _

/-- The function `e` takes one quoted or plain text. -/
lemma unquote_answered : Answered .e called nodes (Arguments.unquote ⟨called, nodes⟩) := by
  refine .of_signature rfl rfl (by simp) fun hcount => ?_
  obtain ⟨node, rfl⟩ := List.length_eq_one_iff.mp hcount.symm
  cases node with
  | quoted value quote => exact .value (.cons (.quoted value quote) .nil) _
  | text value => exact .value (.cons (.text value) .nil) _
  | _ => exact .complaint (.here (fun hadmits => by cases hadmits))

/-- The function `length` takes one argument of any kind. -/
lemma length_answered : Answered .length called nodes (Arguments.length ⟨called, nodes⟩) := by
  refine .of_signature rfl rfl (by simp) fun hcount => ?_
  obtain ⟨node, rfl⟩ := List.length_eq_one_iff.mp hcount.symm
  exact .value (.cons (.any node) .nil) _

/-- An item is found exactly at the places of items. -/
lemma itemAt?_eq_some_iff {items : List Node} {x : Float} {item : Node} :
    Arguments.itemAt? items x = some item ↔
      ∃ n : Nat, exactValue? x = some ((n + 1 : ℕ) : ℚ) ∧ items[n]? = some item := by
  constructor
  · intro h
    obtain ⟨k, hk, h⟩ := Option.bind_eq_some_iff.mp h
    split at h
    · cases h
    · next hpos =>
      refine ⟨k.toNat - 1, ?_, h⟩
      have hplace : ((k.toNat - 1 + 1 : ℕ) : ℤ) = k := by omega
      rw [wholeNumber?_eq_some_iff.mp hk, ← Int.cast_natCast, hplace]
  · rintro ⟨n, hn, hitem⟩
    have hwhole : wholeNumber? x = some ((n + 1 : ℕ) : ℤ) := by
      rw [wholeNumber?_eq_some_iff, hn, Int.cast_natCast]
    have hpos : ¬((n + 1 : ℕ) : ℤ) < 1 := by omega
    refine Option.bind_eq_some_iff.mpr ⟨_, hwhole, ?_⟩
    rw [if_neg hpos, Int.toNat_natCast, Nat.add_sub_cancel]
    exact hitem

/-- A number is a place among items exactly if there is an item at it. -/
lemma isPlaceAmong_iff {items : List Node} {x : Float} :
    IsPlaceAmong items x ↔ ∃ item, Arguments.itemAt? items x = some item := by
  constructor
  · rintro ⟨n, hpos, hle, hn⟩
    obtain ⟨k, rfl⟩ : ∃ k, n = k + 1 := ⟨n - 1, by omega⟩
    exact ⟨items[k], itemAt?_eq_some_iff.mpr ⟨k, hn, List.getElem?_eq_getElem hle⟩⟩
  · rintro ⟨item, hitem⟩
    obtain ⟨n, hn, hitem⟩ := itemAt?_eq_some_iff.mp hitem
    exact ⟨n + 1, by omega, (List.getElem?_eq_some_iff.mp hitem).1, hn⟩

/-- With a list and a number, `extract` looks the item up. -/
lemma extract_eq (list : Node) (q : Quantity) :
    Arguments.extract ⟨called, [list, .number q]⟩ =
      match Arguments.itemAt? list.items q.value with
      | some item => .ok item
      | none => .error (.indexOutOfRange called (Decimal.floatText q.value)) :=
  rfl

/-- The function `extract` takes any first argument and a place among its items. -/
lemma extract_answered : Answered .extract called nodes (Arguments.extract ⟨called, nodes⟩) := by
  refine .of_expectCount rfl rfl fun hcount => ?_
  obtain ⟨list, second, rfl⟩ := List.length_eq_two.mp hcount.symm
  have hkinds : [.any, .number] ∈ extract.signatures := List.mem_singleton_self _
  cases second with
  | number q =>
    show Answered .extract called _ (Arguments.extract ⟨called, [list, .number q]⟩)
    rw [extract_eq]
    cases hitem : Arguments.itemAt? list.items q.value with
    | some item =>
      refine .value ⟨⟨_, hkinds, .cons (.any list) (.cons (.number q) .nil)⟩, ?_⟩ item
      intro _ list' q' hnodes
      cases hnodes
      exact isPlaceAmong_iff.mpr ⟨item, hitem⟩
    | none =>
      refine .complaint (.index rfl rfl ?_)
      rw [isPlaceAmong_iff, hitem]
      simp
  | _ =>
    exact .complaint (.kind hkinds rfl (.later (.any list) (.here fun hadmits => by cases hadmits)))

/-- **Every call is answered as its arguments deserve.** -/
theorem apply_answered (f : Builtin) (called : String) (nodes : List Node) :
    Answered f called nodes (f.apply ⟨called, nodes⟩) := by
  cases f with
  | abs | ceil | floor | round => exact answered_of_number rfl fun q => { q with value := _ }
  | percentage => exact answered_of_number rfl fun q => ⟨q.value * 100.0, "%"⟩
  | rgba | hsla => exact answered_of_four rfl _
  | rgb | hsl => exact answered_of_three rfl _
  | red | green | blue | alpha | hue | saturation | lightness => exact answered_of_component rfl _ _
  | lighten | darken => exact answered_of_shift rfl _
  | e => exact unquote_answered
  | length => exact length_answered
  | extract => exact extract_answered

/-- An answered call gives a value exactly if the arguments fit. -/
lemma Answered.ok_iff {r : Except EvalError Node} (h : Answered f called nodes r) :
    (∃ v, r = .ok v) ↔ f.Fits nodes := by
  cases h with
  | value hfits v => exact iff_of_true ⟨v, rfl⟩ hfits
  | complaint hblames => exact iff_of_false (by simp) fun hfits => hfits.not_blames hblames

/-- An answered call stops for what the arguments are blamed for. -/
lemma Answered.error_iff {r : Except EvalError Node} (h : Answered f called nodes r) (e : EvalError) :
    r = .error e ↔ f.Blames called nodes e := by
  cases h with
  | value hfits v => exact iff_of_false (by simp) hfits.not_blames
  | complaint hblames =>
    constructor
    · intro he
      cases he
      exact hblames
    · intro hother
      rw [hblames.unique hother]

/-- What is extracted is the item at the place that the index says. -/
lemma getElem?_of_extract_eq_ok {list v : Node} {q : Quantity}
    (h : extract.apply ⟨called, [list, .number q]⟩ = .ok v) :
    ∃ n : Nat, exactValue? q.value = some ((n + 1 : ℕ) : ℚ) ∧ list.items[n]? = some v := by
  change Arguments.extract _ = _ at h
  rw [extract_eq] at h
  split at h
  · next item hitem =>
    cases h
    exact itemAt?_eq_some_iff.mp hitem
  · cases h

/-- A complaint names the function as it was called, and is a fault of the style sheet. -/
lemma Blames.names {e : EvalError} (h : f.Blames called nodes e) :
    e.category = .fault ∧
      ∃ what rest, e.message = what ++ " in function '" ++ called ++ "'" ++ rest := by
  cases h with
  | count h =>
    refine ⟨rfl, "Expected " ++ f.arity.text ++ " arguments", ", found " ++ toString nodes.length, ?_⟩
    show "Expected " ++ f.arity.text ++ (" arguments in function '" ++ called ++ "', found " ++
      toString nodes.length) = _
    simp only [String.append_assoc]
    rfl
  | kind hkinds hcount h =>
    obtain ⟨kind, -, node, -, rfl⟩ := h.exists_eq
    refine ⟨rfl, "Expected " ++ kind.word, ", found " ++ node.toSource, ?_⟩
    show "Expected " ++ kind.word ++ " in function '" ++ called ++ "', found " ++ node.toSource = _
    simp only [String.append_assoc]
    rfl
  | @index _ q =>
    refine ⟨rfl, "Index " ++ Decimal.floatText q.value ++ " out of range", "", ?_⟩
    show "Index " ++ Decimal.floatText q.value ++ " out of range in function '" ++ called ++ "'" = _
    simp [String.append_assoc]

/-- The name of a function is found in any letter case. -/
lemma ofName?_eq_some_iff {called : String} {f : Builtin} :
    ofName? called = some f ↔ Text.lower called = f.name := by
  constructor
  · intro h
    have hname : f.name = Text.lower called := by simpa using List.find?_some h
    exact hname.symm
  · intro h
    unfold ofName?
    rw [h]
    cases f <;> rfl

/-- **A call succeeds exactly if its arguments fit, and else fails for what it is blamed for.** The
function is the one of that name in any letter case, and the complaint names it as it was called. What
`extract` gives is the item at the place that the index says. -/
theorem apply_answers (f : Builtin) (called : String) (nodes : List Node) :
    (ofName? called = some f ↔ Text.lower called = f.name) ∧
      ((∃ v, f.apply ⟨called, nodes⟩ = .ok v) ↔ f.Fits nodes) ∧
      (∀ e, f.apply ⟨called, nodes⟩ = .error e ↔ f.Blames called nodes e) ∧
      (∀ e, f.Blames called nodes e → e.category = .fault ∧
        ∃ what rest, e.message = what ++ " in function '" ++ called ++ "'" ++ rest) ∧
      ∀ list q v, f = .extract → nodes = [list, .number q] → f.apply ⟨called, nodes⟩ = .ok v →
        ∃ n : Nat, exactValue? q.value = some ((n + 1 : ℕ) : ℚ) ∧ list.items[n]? = some v := by
  have hanswered := apply_answered f called nodes
  refine ⟨ofName?_eq_some_iff, hanswered.ok_iff, hanswered.error_iff, fun e h => h.names, ?_⟩
  rintro list q v rfl rfl hv
  exact getElem?_of_extract_eq_ok hv

/-- The first of two wrong arguments is reported. -/
example : rgb.apply ⟨"RGB", [.number (.plain 1), .quoted "a" '"', .text "b"]⟩ =
    .error (.wrongArgument "RGB" "number" "\"a\"") := rfl

end Builtin

end Stylesheet
