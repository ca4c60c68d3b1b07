import LoxLang.Tree.Render

/-! # Printed trees

What a tree is printed as is again a tree, of words and of lists with a head (`Sexp`). Every tree of
expressions and statements is printed (`Expr.render_toNode`, `Stmt.render_toNode`). The text of an
`Sexp` can be read in one way only, as long as its words have no blanks and parentheses in them
(`Sexp.text_inj`). -/

namespace LoxLang

/-- A printed tree: a word, or a head and parts between parentheses. -/
inductive Sexp where
  | word (w : String)
  | list (head : String) (parts : List Sexp)

namespace Sexp

mutual

def chars : Sexp → List Char
  | .word w => w.toList
  | .list head parts => '(' :: (head.toList ++ (partChars parts ++ [')']))

/-- The parts of a list, with a blank in front of each. -/
def partChars : List Sexp → List Char
  | [] => []
  | s :: rest => ' ' :: (s.chars ++ partChars rest)

end

def text (s : Sexp) : String := String.ofList s.chars

/-- The number of parts of a list. -/
def arity? : Sexp → Option Nat
  | .word _ => none
  | .list _ parts => some parts.length

@[simp]
theorem text_word (w : String) : (word w).text = w :=
  String.ofList_toList

theorem flatMap_text (parts : List Sexp) :
    (parts.map text).flatMap (fun p => ' ' :: p.toList) = partChars parts := by
  induction parts with
  | nil => rfl
  | cons s parts ih =>
    rw [List.map_cons, List.flatMap_cons, ih, text, String.toList_ofList, partChars,
      List.cons_append]

@[simp]
theorem text_list (head : String) (parts : List Sexp) :
    (list head parts).text = parenthesize head (parts.map text) := by
  rw [← String.toList_inj, text, String.toList_ofList, chars, ← flatMap_text]
  simp [parenthesize, List.flatMap_def, Function.comp_def]

end Sexp

/-! ## The trees of expressions and statements -/

def Expr.sexp : Expr → Sexp
  | .assign name value => .list "=" [.word name.lexeme, value.sexp]
  | .binary left operator right => .list operator.lexeme [left.sexp, right.sexp]
  | .grouping inner => .list "group" [inner.sexp]
  | .literal value => .word value.display
  | .unary operator right => .list operator.lexeme [right.sexp]
  | .variable name => .word name.lexeme

mutual

def Stmt.sexp : Stmt → Sexp
  | .block statements => .list "block" (Stmt.sexps statements)
  | .expression expr => .list ";" [expr.sexp]
  | .print expr => .list "print" [expr.sexp]
  | .var name none => .list "var" [.word name.lexeme]
  | .var name (some initializer) => .list "var" [.word name.lexeme, initializer.sexp]

def Stmt.sexps : List Stmt → List Sexp
  | [] => []
  | s :: rest => s.sexp :: Stmt.sexps rest

end

theorem Expr.partText_toNode (e : Expr) : e.toNode.partText = .ok e.sexp.text := by
  induction e with
  | assign name value ih =>
    rw [toNode, Node.partText, ih]
    simp [sexp, bind, Except.bind, pure, Except.pure]
  | binary left operator right ihleft ihright =>
    rw [toNode, Node.partText, ihleft, ihright]
    simp [sexp, bind, Except.bind, pure, Except.pure]
  | grouping inner ih | unary operator inner ih =>
    rw [toNode, Node.partText, ih]
    simp [sexp, bind, Except.bind, pure, Except.pure]
  | literal | «variable» =>
    rw [toNode, Node.partText, sexp, Sexp.text_word]
    rfl

mutual

theorem Stmt.partText_toNode : (s : Stmt) → s.toNode.partText = .ok s.sexp.text
  | .block statements => by
    rw [toNode, Node.partText, Stmt.partTexts_toNodes statements]
    simp [sexp, bind, Except.bind, pure, Except.pure]
  | .expression e | .print e => by
    rw [toNode, Node.partText, e.partText_toNode]
    simp [sexp, bind, Except.bind, pure, Except.pure]
  | .var name none => by
    simp [toNode, Node.partText, sexp, pure, Except.pure]
  | .var name (some e) => by
    rw [toNode, Option.elim_some, Node.partText, e.partText_toNode]
    · simp [sexp, bind, Except.bind, pure, Except.pure]
    · exact e.toNode_ne_absent

theorem Stmt.partTexts_toNodes : (ss : List Stmt) →
    Node.partTexts (Stmt.toNodes ss) = .ok ((Stmt.sexps ss).map Sexp.text)
  | [] => rfl
  | s :: ss => by
    rw [toNodes, Node.partTexts, Stmt.partText_toNode s, Stmt.partTexts_toNodes ss]
    rfl

end

theorem Expr.render_toNode (e : Expr) : e.toNode.render = .ok e.sexp.text := by
  rw [← e.partText_toNode]
  cases e <;> rfl

theorem Stmt.render_toNode (s : Stmt) : s.toNode.render = .ok s.sexp.text := by
  rw [← s.partText_toNode]
  cases s <;> rfl

theorem Stmt.map_render_toNodes (ss : List Stmt) :
    (Stmt.toNodes ss).map Node.render = ((Stmt.sexps ss).map Sexp.text).map .ok := by
  induction ss with
  | nil => rfl
  | cons s ss ih => rw [Stmt.toNodes, List.map_cons, s.render_toNode, ih, sexps, List.map_cons,
      List.map_cons]

/-! ## Reading a printed tree -/

namespace Sexp

/-- The characters that words are separated by. -/
def separators : List Char := [' ', '(', ')']

/-- The text is a word: it is not empty, and nothing in it separates words. -/
structure IsWord (w : String) : Prop where
  ne_nil : w.toList ≠ []
  plain : ∀ c ∈ w.toList, c ∉ separators

mutual

/-- The tree is made of words. -/
def WellFormed : Sexp → Prop
  | .word w => IsWord w
  | .list head parts => IsWord head ∧ AllWellFormed parts

def AllWellFormed : List Sexp → Prop
  | [] => True
  | s :: rest => s.WellFormed ∧ AllWellFormed rest

end

/-- A word ends here. -/
def Boundary (cs : List Char) : Prop := ∀ c ∈ cs.head?, c ∈ separators

theorem boundary_partChars (parts : List Sexp) (rest : List Char) :
    Boundary (partChars parts ++ ')' :: rest) := by
  cases parts with
  | nil =>
    rintro _ ⟨⟩
    decide
  | cons s parts =>
    rintro _ ⟨⟩
    decide

/-- A word ends at the first separator behind it. -/
theorem plain_append_inj {u v a b : List Char} (hu : ∀ c ∈ u, c ∉ separators)
    (hv : ∀ c ∈ v, c ∉ separators) (ha : Boundary a) (hb : Boundary b) (h : u ++ a = v ++ b) :
    u = v ∧ a = b := by
  induction u generalizing v with
  | nil =>
    cases v with
    | nil => exact ⟨rfl, h⟩
    | cons c v =>
      obtain rfl : a = c :: (v ++ b) := h
      exact absurd (ha c rfl) (hv c List.mem_cons_self)
  | cons c u ih =>
    cases v with
    | nil =>
      obtain rfl : c :: (u ++ a) = b := h
      exact absurd (hb c rfl) (hu c List.mem_cons_self)
    | cons d v =>
      obtain ⟨rfl, htail⟩ := List.cons.inj h
      obtain ⟨rfl, hrest⟩ := ih (List.forall_mem_cons.mp hu).2 (List.forall_mem_cons.mp hv).2 htail
      exact ⟨rfl, hrest⟩

theorem word_append_inj {w w' : String} {a b : List Char} (hw : IsWord w) (hw' : IsWord w')
    (ha : Boundary a) (hb : Boundary b) (h : w.toList ++ a = w'.toList ++ b) : w = w' ∧ a = b := by
  obtain ⟨hwords, hrest⟩ := plain_append_inj hw.plain hw'.plain ha hb h
  exact ⟨String.toList_inj.mp hwords, hrest⟩

/-- A list does not begin as a word does. -/
theorem word_append_ne {w : String} {a rest : List Char} (hw : IsWord w) :
    w.toList ++ a ≠ '(' :: rest := by
  obtain ⟨hne, hplain⟩ := hw
  revert hne hplain
  cases w.toList with
  | nil => exact fun hne => absurd rfl hne
  | cons c cs =>
    rintro - hplain ⟨⟩
    exact hplain '(' List.mem_cons_self (by decide)

mutual

/-- A tree in front of any rest is the only one that can be read there. -/
theorem chars_append_inj : (s t : Sexp) → s.WellFormed → t.WellFormed → ∀ {a b}, Boundary a →
    Boundary b → s.chars ++ a = t.chars ++ b → s = t ∧ a = b
  | .word w, .word w', hs, ht, a, b, ha, hb, h => by
    obtain ⟨rfl, hrest⟩ := word_append_inj hs ht ha hb h
    exact ⟨rfl, hrest⟩
  | .word w, .list head parts, hs, _, a, b, _, _, h => absurd h (word_append_ne hs)
  | .list head parts, .word w, _, ht, a, b, _, _, h => absurd h.symm (word_append_ne ht)
  | .list head parts, .list head' parts', hs, ht, a, b, ha, hb, h => by
    simp only [chars, List.cons_append, List.append_assoc, List.nil_append,
      List.cons.injEq, true_and] at h
    obtain ⟨rfl, hparts⟩ := word_append_inj hs.1 ht.1 (boundary_partChars parts a)
      (boundary_partChars parts' b) h
    obtain ⟨rfl, hrest⟩ := partChars_append_inj parts parts' hs.2 ht.2 hparts
    exact ⟨rfl, hrest⟩

theorem partChars_append_inj : (ss ts : List Sexp) → AllWellFormed ss → AllWellFormed ts →
    ∀ {a b}, partChars ss ++ ')' :: a = partChars ts ++ ')' :: b → ss = ts ∧ a = b
  | [], [], _, _, a, b, h => ⟨rfl, (List.cons.inj h).2⟩
  | [], t :: ts, _, _, a, b, h => by cases h
  | s :: ss, [], _, _, a, b, h => by cases h
  | s :: ss, t :: ts, hs, ht, a, b, h => by
    simp only [partChars, List.cons_append, List.append_assoc, List.cons.injEq, true_and] at h
    obtain ⟨rfl, hparts⟩ := chars_append_inj s t hs.1 ht.1 (boundary_partChars ss a)
      (boundary_partChars ts b) h
    obtain ⟨rfl, hrest⟩ := partChars_append_inj ss ts hs.2 ht.2 hparts
    exact ⟨rfl, hrest⟩

end

/-- A printed tree can be read in one way only. -/
theorem text_inj {s t : Sexp} (hs : s.WellFormed) (ht : t.WellFormed) (h : s.text = t.text) :
    s = t := by
  have hchars := congrArg String.toList h
  rw [text, text, String.toList_ofList, String.toList_ofList] at hchars
  refine (chars_append_inj s t hs ht (a := []) (b := []) nofun nofun ?_).1
  rw [hchars]

theorem map_text_inj {ss ts : List Sexp} (hs : AllWellFormed ss) (ht : AllWellFormed ts)
    (h : ss.map text = ts.map text) : ss = ts := by
  induction ss generalizing ts with
  | nil => exact (List.map_eq_nil_iff.mp h.symm).symm
  | cons s ss ih =>
    cases ts with
    | nil => cases h
    | cons t ts =>
      obtain ⟨hhead, htail⟩ := List.cons.inj h
      rw [text_inj hs.1 ht.1 hhead, ih hs.2 ht.2 htail]

end Sexp

end LoxLang
