import Cashbox.Eee.RuntimeMetadata
import Cashbox.Lib.Trim

/-!
# Argument types as text

The metadata of a runtime gives the argument types of an event as text: `Vec<t>`, a tuple of types
between parentheses, or a primitive name. The parser splits a tuple at every comma, also at those
of the tuples in it.
-/

namespace Cashbox.Eee

open Cashbox.Lib

/-! ## Trees and their texts -/

namespace EventArg

mutual

def text : EventArg → Text
  | .primitive name => name.toList
  | .vec arg => 'V' :: 'e' :: 'c' :: '<' :: (arg.text ++ ['>'])
  | .tuple args => '(' :: (textOfAll args ++ [')'])

/-- The types of a tuple, with commas between them. -/
def textOfAll : List EventArg → Text
  | [] => []
  | [arg] => arg.text
  | arg :: next :: args => arg.text ++ ',' :: ' ' :: textOfAll (next :: args)

end

mutual

/-- A property of every type in a tree. -/
def Each (p : EventArg → Prop) : EventArg → Prop
  | .primitive name => p (.primitive name)
  | .vec arg => p (.vec arg) ∧ arg.Each p
  | .tuple args => p (.tuple args) ∧ EachOf p args

def EachOf (p : EventArg → Prop) : List EventArg → Prop
  | [] => True
  | arg :: args => arg.Each p ∧ EachOf p args

end

/-- A primitive name has no bracket and no comma, and a tuple is not empty. -/
def Proper : EventArg → Prop
  | .primitive name => ∀ c ∈ name.toList, c ∉ ['<', '>', '(', ')', ',']
  | .vec _ => True
  | .tuple args => args ≠ []

/-- No tuple of two or more types. -/
def Single : EventArg → Prop
  | .tuple args => args.length = 1
  | _ => True

/-- No white space at the ends of a primitive name. -/
def Trimmed : EventArg → Prop
  | .primitive name => Text.trim name.toList = name.toList
  | _ => True

/-- In a tuple, no comma and no white space that is lost. -/
def Plain : EventArg → Prop
  | .tuple args => ∀ arg ∈ args, arg.Each Single ∧ arg.Trimmed
  | _ => True

/-! ## Trees -/

variable {p : EventArg → Prop}

theorem eachOf_iff {args : List EventArg} : EachOf p args ↔ ∀ arg ∈ args, arg.Each p := by
  induction args with
  | nil => simp [EachOf]
  | cons arg args ih => simp [EachOf, ih]

theorem each_tuple {args : List EventArg} :
    (EventArg.tuple args).Each p ↔ p (.tuple args) ∧ ∀ arg ∈ args, arg.Each p := by
  rw [Each, eachOf_iff]

/-- Induction over a tree, with the types of a tuple by membership. -/
theorem induct {motive : EventArg → Prop} (primitive : ∀ name, motive (.primitive name))
    (vec : ∀ arg, motive arg → motive (.vec arg))
    (tuple : ∀ args, (∀ arg ∈ args, motive arg) → motive (.tuple args)) (t : EventArg) :
    motive t :=
  @EventArg.rec motive (fun args => ∀ arg ∈ args, motive arg) primitive vec tuple
    (fun _ harg => nomatch harg)
    (fun _ _ harg hargs => List.forall_mem_cons.mpr ⟨harg, hargs⟩) t

/-! ## Commas -/

theorem length_splitComma (s : Text) : (splitComma s).length = s.count ',' + 1 := by
  induction s with
  | nil => rfl
  | cons c s ih =>
    unfold splitComma
    by_cases hc : c = ','
    · subst hc
      simp [ih]
    · rw [if_neg hc, List.count_cons_of_ne (fun h => hc h)]
      cases hsplit : splitComma s with
      | nil =>
        rw [hsplit] at ih
        cases ih
      | cons piece pieces =>
        rw [hsplit] at ih
        exact ih

theorem splitComma_of_not_mem {a : Text} (h : ',' ∉ a) : splitComma a = [a] := by
  induction a with
  | nil => rfl
  | cons c a ih =>
    obtain ⟨hc, ha⟩ := not_or.mp (List.mem_cons.not.mp h)
    rw [splitComma, if_neg (fun heq => hc heq.symm), ih ha]

/-- The first piece ends at the first comma. -/
theorem splitComma_append {a : Text} (h : ',' ∉ a) (s : Text) :
    splitComma (a ++ ',' :: s) = a :: splitComma s := by
  induction a with
  | nil => simp [splitComma]
  | cons c a ih =>
    obtain ⟨hc, ha⟩ := not_or.mp (List.mem_cons.not.mp h)
    rw [List.cons_append, splitComma, if_neg (fun heq => hc heq.symm), ih ha]

theorem count_textOfAll (args : List EventArg) :
    (textOfAll args).count ',' + 1 =
      args.length - 1 + (args.map fun arg => arg.text.count ',').sum + 1 := by
  induction args with
  | nil => rfl
  | cons arg args ih =>
    cases args with
    | nil => simp [textOfAll]
    | cons next args =>
      have hspace : (' ' :: textOfAll (next :: args)).count ',' =
          (textOfAll (next :: args)).count ',' := List.count_cons_of_ne (by decide)
      rw [textOfAll, List.count_append, List.count_cons_self, hspace, ih]
      simp only [List.map_cons, List.sum_cons, List.length_cons]
      omega

/-- A text without commas is one of types without tuples of two or more. -/
theorem not_mem_text_iff (t : EventArg) : t.Each Proper → (',' ∉ t.text ↔ t.Each Single) := by
  induction t using induct with
  | primitive name =>
    intro hproper
    refine iff_of_true (fun hmem => ?_) trivial
    exact hproper ',' hmem (by simp)
  | vec arg ih =>
    rintro ⟨-, hproper⟩
    have hsingle : (EventArg.vec arg).Each Single ↔ arg.Each Single := and_iff_right trivial
    rw [hsingle, ← ih hproper, text]
    simp
  | tuple args ih =>
    intro hproper
    obtain ⟨hne, hproper⟩ := each_tuple.mp hproper
    have hne : args ≠ [] := hne
    have hcount := count_textOfAll args
    have hzero : (',' ∉ (EventArg.tuple args).text) ↔ (textOfAll args).count ',' = 0 := by
      rw [text, List.count_eq_zero]
      simp
    have hsum : (args.map fun arg => arg.text.count ',').sum = 0 ↔
        ∀ arg ∈ args, arg.Each Single := by
      rw [List.sum_eq_zero_iff_forall_eq_nat]
      simp only [List.forall_mem_map, List.count_eq_zero]
      exact forall₂_congr fun arg harg => ih arg harg (hproper arg harg)
    have hpos := List.length_pos_of_ne_nil hne
    rw [hzero, each_tuple, ← hsum]
    show _ ↔ args.length = 1 ∧ _
    omega

/-! ## White space -/

/-- A blank before a text is trimmed off. -/
theorem trim_blank (s : Text) : Text.trim (' ' :: s) = s.trim := by
  have htrim : Text.trim ([' '] ++ (s ++ [])) = s.trim :=
    Text.trimMatches_append (List.forall_mem_singleton.mpr (by decide)) (by simp)
  simpa using htrim

theorem trim_text {t : EventArg} (h : t.Trimmed) : t.text.trim = t.text := by
  cases t with
  | primitive name => exact h
  | vec arg =>
    exact Text.trimMatches_between (by decide) (by decide) ('e' :: 'c' :: '<' :: arg.text)
  | tuple args => exact Text.trimMatches_between (by decide) (by decide) (textOfAll args)

/-- The pieces of a tuple without commas in its types. -/
theorem map_trim_splitComma {args : List EventArg} (hne : args ≠ [])
    (hcomma : ∀ arg ∈ args, ',' ∉ arg.text) :
    (splitComma (textOfAll args)).map Text.trim = args.map fun arg => arg.text.trim := by
  induction args with
  | nil => exact absurd rfl hne
  | cons arg args ih =>
    obtain ⟨harg, hargs⟩ := List.forall_mem_cons.mp hcomma
    cases args with
    | nil => rw [textOfAll, splitComma_of_not_mem harg, List.map_singleton, List.map_singleton]
    | cons next args =>
      have hrest := ih (List.cons_ne_nil _ _) hargs
      have hblank : (splitComma (' ' :: textOfAll (next :: args))).map Text.trim =
          (splitComma (textOfAll (next :: args))).map Text.trim := by
        have hlength := length_splitComma (textOfAll (next :: args))
        rw [splitComma, if_neg (by decide)]
        cases hsplit : splitComma (textOfAll (next :: args)) with
        | nil =>
          rw [hsplit] at hlength
          cases hlength
        | cons piece pieces => simp [trim_blank]
      rw [textOfAll, splitComma_append harg, List.map_cons, hblank, hrest, List.map_cons]
      rfl

/-! ## Lists of results -/

section Lists

variable {α β ε : Type} {f : α → Except ε β}

theorem mapM_attach (f : α → Except ε β) (xs : List α) :
    (xs.attach.mapM fun ⟨x, _⟩ => f x) = xs.mapM f := by
  rw [List.mapM_subtype (g := f) fun _ _ => rfl, List.unattach_attach]

/-- All results are returned, in order. -/
theorem mapM_eq_ok {xs : List α} {ys : List β} :
    xs.mapM f = .ok ys ↔ List.Forall₂ (fun x y => f x = .ok y) xs ys := by
  induction xs generalizing ys with
  | nil =>
    rw [List.mapM_nil, List.forall₂_nil_left_iff]
    exact ⟨fun h => (Except.ok.inj h).symm, fun h => h ▸ rfl⟩
  | cons x xs ih =>
    rw [List.mapM_cons, List.forall₂_cons_left_iff]
    cases hx : f x with
    | error e => simp [Bind.bind, Except.bind]
    | ok y =>
      cases hxs : xs.mapM f with
      | error e =>
        have hnone : ∀ ys, ¬ List.Forall₂ (fun x y => f x = .ok y) xs ys := by
          intro ys h
          rw [ih.mpr h] at hxs
          cases hxs
        simp [Bind.bind, Except.bind, hnone]
      | ok zs =>
        have hsome : ∀ ys, List.Forall₂ (fun x y => f x = .ok y) xs ys ↔ ys = zs := by
          intro ys
          rw [← ih, hxs]
          exact ⟨fun h => (Except.ok.inj h).symm, fun h => h ▸ rfl⟩
        simp [Bind.bind, Except.bind, hsome, Pure.pure, Except.pure, eq_comm]

end Lists

/-! ## The parser -/

theorem fromStr_vec (inner : Text) : fromStr ('V' :: 'e' :: 'c' :: '<' :: (inner ++ ['>'])) =
    fromStr inner >>= fun arg => .ok (.vec arg) := by
  rw [fromStr, if_pos (by simp), List.dropLast_concat]

theorem fromStr_tuple (inner : Text) : fromStr ('(' :: (inner ++ [')'])) =
    ((splitComma inner).map Text.trim).mapM fromStr >>= fun args => .ok (.tuple args) := by
  have hlast : (inner ++ [')']).getLast? = some ')' := List.getLast?_concat
  rw [fromStr, if_pos hlast, mapM_attach fun arg => fromStr (Text.trim arg), List.mapM_map,
    List.dropLast_concat]
  rfl

/-- Without brackets a text is a name. -/
theorem fromStr_name {s : Text} (hangle : '<' ∉ s) (hround : '(' ∉ s) :
    fromStr s = .ok (.primitive (String.ofList s)) := by
  rw [fromStr]
  · rintro inner rfl
    simp at hangle
  · rintro inner rfl
    simp at hround

/-! ## Round trips -/

/-- **Texts that are read back**: no comma and no white space of a tuple is lost. -/
theorem fromStr_text_of_plain (t : EventArg) :
    t.Each Proper → t.Each Plain → fromStr t.text = .ok t := by
  induction t using induct with
  | primitive name =>
    intro hproper hplain
    have hname : ∀ c ∈ name.toList, c ∉ ['<', '>', '(', ')', ','] := hproper
    rw [text, fromStr_name (fun hc => hname _ hc (by simp)) (fun hc => hname _ hc (by simp)),
      String.ofList_toList]
  | vec arg ih =>
    rintro ⟨-, hproper⟩ ⟨-, hplain⟩
    rw [text, fromStr_vec, ih hproper hplain]
    rfl
  | tuple args ih =>
    intro hproper hplain
    obtain ⟨hne, hproper⟩ := each_tuple.mp hproper
    obtain ⟨hnode, hplain⟩ := each_tuple.mp hplain
    have hnode : ∀ arg ∈ args, arg.Each Single ∧ arg.Trimmed := hnode
    have hcomma : ∀ arg ∈ args, ',' ∉ arg.text := fun arg harg =>
      (not_mem_text_iff arg (hproper arg harg)).mpr (hnode arg harg).1
    have hargs : (args.map fun arg => arg.text.trim).mapM fromStr = .ok args := by
      rw [mapM_eq_ok, List.forall₂_map_left_iff, List.forall₂_same]
      intro arg harg
      rw [trim_text (hnode arg harg).2]
      exact ih arg harg (hproper arg harg) (hplain arg harg)
    rw [text, fromStr_tuple, map_trim_splitComma hne hcomma, hargs]
    rfl

/-- A type that is read from its trimmed text has no white space at its ends. -/
theorem trimmed_of_fromStr {t : EventArg} (hproper : t.Each Proper)
    (hread : fromStr t.text.trim = .ok t) : t.Trimmed := by
  cases t with
  | primitive name =>
    have hname : ∀ c ∈ name.toList, c ∉ ['<', '>', '(', ')', ','] := hproper
    have hnot (c : Char) (hc : c ∈ ['<', '>', '(', ')', ',']) : c ∉ Text.trim name.toList :=
      fun hmem => hname c (Text.mem_of_mem_trimMatches hmem) hc
    rw [text, fromStr_name (hnot _ (by simp)) (hnot _ (by simp))] at hread
    have hsame : String.ofList (Text.trim name.toList) = name :=
      EventArg.primitive.inj (Except.ok.inj hread)
    show Text.trim name.toList = name.toList
    conv_rhs => rw [← hsame, String.toList_ofList]
  | vec arg => trivial
  | tuple args => trivial

/-- What is read back as itself has lost nothing. -/
theorem plain_of_fromStr_text (t : EventArg) :
    t.Each Proper → fromStr t.text = .ok t → t.Each Plain := by
  induction t using induct with
  | primitive name =>
    intro _ _
    trivial
  | vec arg ih =>
    rintro ⟨-, hproper⟩ hread
    rw [text, fromStr_vec] at hread
    refine ⟨trivial, ih hproper ?_⟩
    cases hinner : fromStr arg.text with
    | error e =>
      rw [hinner] at hread
      cases hread
    | ok inner =>
      rw [hinner] at hread
      rw [EventArg.vec.inj (Except.ok.inj hread)]
  | tuple args ih =>
    intro hproper hread
    obtain ⟨hne, hproper⟩ := each_tuple.mp hproper
    have hargs : ((splitComma (textOfAll args)).map Text.trim).mapM fromStr = .ok args := by
      rw [text, fromStr_tuple] at hread
      cases hinner : ((splitComma (textOfAll args)).map Text.trim).mapM fromStr with
      | error e =>
        rw [hinner] at hread
        cases hread
      | ok inner =>
        rw [hinner] at hread
        rw [EventArg.tuple.inj (Except.ok.inj hread)]
    -- there are as many types as commas and one, so no comma is in a type
    have hcomma : ∀ arg ∈ args, ',' ∉ arg.text := by
      have hlength := (mapM_eq_ok.mp hargs).length_eq
      have hcount := count_textOfAll args
      have hpos := List.length_pos_of_ne_nil hne
      rw [List.length_map, length_splitComma] at hlength
      have hsum : (args.map fun arg => arg.text.count ',').sum = 0 := by omega
      rw [List.sum_eq_zero_iff_forall_eq_nat] at hsum
      intro arg harg
      exact List.count_eq_zero.mp (hsum _ (List.mem_map_of_mem harg))
    rw [map_trim_splitComma hne hcomma, mapM_eq_ok, List.forall₂_map_left_iff,
      List.forall₂_same] at hargs
    have htrimmed : ∀ arg ∈ args, arg.Trimmed := fun arg harg =>
      trimmed_of_fromStr (hproper arg harg) (hargs arg harg)
    refine each_tuple.mpr ⟨fun arg harg => ⟨?_, htrimmed arg harg⟩, fun arg harg => ?_⟩
    · exact (not_mem_text_iff arg (hproper arg harg)).mp (hcomma arg harg)
    · apply ih arg harg (hproper arg harg)
      have hread := hargs arg harg
      rwa [trim_text (htrimmed arg harg)] at hread

/-- **Argument types as text**: the text of a type is read back as the type exactly if no type in
a tuple has a tuple of two or more in it, or is a name with white space at its ends. -/
theorem fromStr_text_iff (t : EventArg) (hproper : t.Each Proper) :
    fromStr t.text = .ok t ↔ t.Each Plain :=
  ⟨plain_of_fromStr_text t hproper, fromStr_text_of_plain t hproper⟩

/-- A vector of pairs, of which one is a vector. -/
def pairs : EventArg := .vec (.tuple [.primitive "AccountId", .vec (.primitive "u8")])

theorem fromStr_text_pairs : fromStr pairs.text = .ok pairs ↔ pairs.Each Plain := by
  apply fromStr_text_iff
  simp [pairs, Each, EachOf, Proper]

/-- A pair in a pair is cut at its comma. -/
def nestedPair : EventArg :=
  .tuple [.tuple [.primitive "AccountId", .primitive "Balance"], .primitive "u32"]

theorem not_fromStr_text_nestedPair :
    nestedPair.Each Proper ∧ fromStr nestedPair.text ≠ .ok nestedPair := by
  have hproper : nestedPair.Each Proper := by simp [nestedPair, Each, EachOf, Proper]
  refine ⟨hproper, fun hread => ?_⟩
  have hplain := plain_of_fromStr_text nestedPair hproper hread
  simp [nestedPair, Each, EachOf, Plain, Single] at hplain

end EventArg

end Cashbox.Eee
