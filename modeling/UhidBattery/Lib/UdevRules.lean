import Mathlib.Tactic.Common
import Mathlib.Data.List.Basic

/-!
# The text of udev rules

A rule is one line of comma-separated terms: a key, an operator and a
double-quoted value.  A value ends at the first double quote that no backslash
precedes; a backslash and a double quote inside it stand for the quote.

* `readValue_append`, `readValue_escaped`: where a value that holds no quote ends.
* `readRule_render_iff`: terms written out in full are read back as they were,
  exactly when no value ends in a backslash.
-/

namespace UdevRules

abbrev Text := List Char

inductive Operator where
  | equal
  | unequal
  | assign
  | add
  | remove
  | final
  deriving DecidableEq, Repr

structure Term where
  key : Text
  operator : Operator
  value : Text
  deriving DecidableEq, Repr

/-! ## Writing -/

def Operator.text : Operator → Text
  | equal => ['=', '=']
  | unequal => ['!', '=']
  | assign => ['=']
  | add => ['+', '=']
  | remove => ['-', '=']
  | final => [':', '=']

def Term.text (self : Term) : Text :=
  self.key ++ (self.operator.text ++ '"' :: (self.value ++ ['"']))

/-- The terms of a rule, with a comma and a blank between them. -/
def render : List Term → Text
  | [] => []
  | [term] => term.text
  | term :: terms => term.text ++ ',' :: ' ' :: render terms

/-! ## Reading -/

/-- A character of a key: none that an operator, a value or a separator starts with. -/
def isKeyChar (c : Char) : Bool :=
  !(c ∈ ['=', '!', '+', '-', ':', '"', ',', ' ', '\t', '\n'])

def isBlank (c : Char) : Bool := c ∈ [' ', '\t']

/-- A value, from after its opening quote: the value and what follows it. -/
def readValue : Text → Option (Text × Text)
  | [] => none
  | '"' :: rest => some ([], rest)
  | '\\' :: '"' :: rest => (readValue rest).map fun x => ('"' :: x.1, x.2)
  | c :: rest => (readValue rest).map fun x => (c :: x.1, x.2)

def readOperator : Text → Option (Operator × Text)
  | '=' :: '=' :: rest => some (.equal, rest)
  | '!' :: '=' :: rest => some (.unequal, rest)
  | '+' :: '=' :: rest => some (.add, rest)
  | '-' :: '=' :: rest => some (.remove, rest)
  | ':' :: '=' :: rest => some (.final, rest)
  | '=' :: rest => some (.assign, rest)
  | _ => none

def readTerm (text : Text) : Option (Term × Text) :=
  if text.takeWhile isKeyChar = [] then none
  else
    match readOperator (text.dropWhile isKeyChar) with
    | some (operator, '"' :: rest) =>
      (readValue rest).map fun x => (⟨text.takeWhile isKeyChar, operator, x.1⟩, x.2)
    | _ => none

/-- The terms of a rule, `most` of them at most. -/
def readTerms : Nat → Text → Option (List Term)
  | 0, _ => none
  | most + 1, text =>
    match readTerm text with
    | some (term, rest) =>
      match rest.dropWhile isBlank with
      | [] => some [term]
      | ',' :: rest => (readTerms most (rest.dropWhile isBlank)).map (term :: ·)
      | _ => none
    | none => none

/-- What a text says as a rule, if it is one line. -/
def readRule (text : Text) : Option (List Term) :=
  if '\n' ∈ text then none else readTerms text.length text

/-! ## Where a value ends -/

section Value

variable {value rest : Text}

/-- No backslash at the end. -/
def Closed (value : Text) : Prop := value.getLast? ≠ some '\\'

instance (value : Text) : Decidable (Closed value) := inferInstanceAs (Decidable (_ ≠ _))

theorem readValue_cons {c : Char} (hc : c ≠ '"') (h : c = '\\' → ∀ text, rest ≠ '"' :: text) :
    readValue (c :: rest) = (readValue rest).map fun x => (c :: x.1, x.2) := by
  rw [readValue]
  · intro h'
    exact hc h'
  · intro text hc' htext
    exact h hc' text htext

/-- A value without quotes that no backslash ends is read as it was written. -/
theorem readValue_append (hq : '"' ∉ value) (hb : Closed value) :
    readValue (value ++ '"' :: rest) = some (value, rest) := by
  induction value with
  | nil => rfl
  | cons c value ih =>
    have hc := List.ne_of_not_mem_cons hq
    have hq := List.not_mem_of_not_mem_cons hq
    rw [List.cons_append, readValue_cons (Ne.symm hc)]
    · cases value with
      | nil => rfl
      | cons d value =>
        rw [ih hq (by simpa [Closed] using hb)]
        rfl
    · intro hback text
      cases value with
      | nil =>
        subst hback
        exact absurd rfl hb
      | cons d value =>
        intro h
        exact hq (by rw [(List.cons.inj h).1]; exact List.mem_cons_self)

/-- A backslash at its end takes the value past its closing quote. -/
theorem readValue_escaped (hq : '"' ∉ value) :
    readValue (value ++ '\\' :: '"' :: rest) =
      (readValue rest).map fun x => (value ++ '"' :: x.1, x.2) := by
  induction value with
  | nil => rfl
  | cons c value ih =>
    have hc := List.ne_of_not_mem_cons hq
    have hq := List.not_mem_of_not_mem_cons hq
    rw [List.cons_append, readValue_cons (Ne.symm hc), ih hq, Option.map_map]
    · rfl
    · intro _ text h
      cases value with
      | nil =>
        cases (List.cons.inj h).1
      | cons d value =>
        exact hq (by rw [(List.cons.inj h).1]; exact List.mem_cons_self)

/-- **A value is read as it was written** exactly when no backslash ends it. -/
theorem readValue_eq_iff (hq : '"' ∉ value) :
    (∃ text, readValue (value ++ '"' :: rest) = some (value, text)) ↔ Closed value := by
  constructor
  · rintro ⟨text, h⟩ hlast
    obtain ⟨short, rfl⟩ := List.getLast?_eq_some_iff.mp hlast
    rw [List.append_assoc, List.singleton_append,
      readValue_escaped fun hm => hq (List.mem_append_left _ hm)] at h
    obtain ⟨x, -, hx⟩ := Option.map_eq_some_iff.mp h
    have hhead := List.append_cancel_left (Prod.mk.inj hx).1
    cases (List.cons.inj hhead).1
  · intro hb
    exact ⟨rest, readValue_append hq hb⟩

end Value

/-! ## Reading what was written -/

/-- A term that can be written out: a key in key characters, and a value without
a double quote or a newline. -/
structure Term.Plain (term : Term) : Prop where
  key_ne : term.key ≠ []
  key_chars : ∀ c ∈ term.key, isKeyChar c = true
  no_quote : '"' ∉ term.value
  no_newline : '\n' ∉ term.value

section Terms

variable {term : Term} {terms : List Term} {rest : Text}

theorem readOperator_text (operator : Operator) :
    readOperator (operator.text ++ '"' :: rest) = some (operator, '"' :: rest) := by
  cases operator <;> rfl

theorem dropWhile_operator (operator : Operator) :
    (operator.text ++ '"' :: rest).dropWhile isKeyChar = operator.text ++ '"' :: rest := by
  cases operator <;> rfl

theorem takeWhile_operator (operator : Operator) :
    (operator.text ++ '"' :: rest).takeWhile isKeyChar = [] := by
  cases operator <;> rfl

theorem readTerm_text (hp : term.Plain) :
    readTerm (term.text ++ rest) = (readValue (term.value ++ '"' :: rest)).map fun x =>
      (⟨term.key, term.operator, x.1⟩, x.2) := by
  have htext : term.text ++ rest =
      term.key ++ (term.operator.text ++ '"' :: (term.value ++ '"' :: rest)) := by
    simp [Term.text]
  have hkey : (term.text ++ rest).takeWhile isKeyChar = term.key := by
    rw [htext, List.takeWhile_append_of_pos hp.key_chars, takeWhile_operator, List.append_nil]
  have hafter : (term.text ++ rest).dropWhile isKeyChar =
      term.operator.text ++ '"' :: (term.value ++ '"' :: rest) := by
    rw [htext, List.dropWhile_append_of_pos hp.key_chars, dropWhile_operator]
  unfold readTerm
  rw [hkey, hafter, if_neg hp.key_ne, readOperator_text]
  rfl

theorem readTerm_of_closed (hp : term.Plain) (hc : Closed term.value) :
    readTerm (term.text ++ rest) = some (term, rest) := by
  rw [readTerm_text hp, readValue_append hp.no_quote hc]
  rfl

theorem closed_of_readTerm (hp : term.Plain) {rest' : Text}
    (h : readTerm (term.text ++ rest) = some (term, rest')) : Closed term.value := by
  rw [readTerm_text hp] at h
  obtain ⟨x, hx, heq⟩ := Option.map_eq_some_iff.mp h
  have hvalue : x.1 = term.value := congrArg (fun y => y.1.value) heq
  apply (readValue_eq_iff hp.no_quote).mp
  exact ⟨x.2, by rw [hx, ← hvalue]⟩

/-- What follows a term in a rule. -/
def following : List Term → Text
  | [] => []
  | terms => ',' :: ' ' :: render terms

theorem render_cons (term : Term) (terms : List Term) :
    render (term :: terms) = term.text ++ following terms := by
  cases terms with
  | nil => exact (List.append_nil _).symm
  | cons next terms => rfl

/-- A rule does not begin with a blank. -/
theorem dropWhile_render (hp : term.Plain) :
    (render (term :: terms)).dropWhile isBlank = render (term :: terms) := by
  obtain ⟨c, key, hkey⟩ := List.exists_cons_of_ne_nil hp.key_ne
  have hc : isKeyChar c = true := hp.key_chars c (by rw [hkey]; exact List.mem_cons_self)
  have hblank : isBlank c = false := by
    apply Bool.eq_false_iff.mpr
    intro hb
    rw [isBlank, decide_eq_true_eq] at hb
    rcases List.mem_cons.mp hb with rfl | hb
    · exact absurd hc (by decide)
    · rw [List.mem_singleton.mp hb] at hc
      exact absurd hc (by decide)
  have hrender : render (term :: terms) =
      c :: (key ++ (term.operator.text ++ '"' :: (term.value ++ ['"'])) ++ following terms) := by
    rw [render_cons, Term.text, hkey]
    rfl
  rw [hrender, List.dropWhile_cons_of_neg (by rw [hblank]; exact Bool.false_ne_true)]

/-- The first term of a rule is what its text begins with. -/
theorem readTerm_of_readTerms {most : Nat} {text : Text}
    (h : readTerms (most + 1) text = some (term :: terms)) :
    ∃ rest, readTerm text = some (term, rest) := by
  rw [readTerms] at h
  cases hread : readTerm text with
  | none =>
    rw [hread] at h
    cases h
  | some x =>
    rw [hread] at h
    simp only at h
    split at h
    · cases h
      exact ⟨x.2, rfl⟩
    · obtain ⟨more, -, hcons⟩ := Option.map_eq_some_iff.mp h
      cases hcons
      exact ⟨x.2, rfl⟩
    · cases h

/-- **Written out, terms are read back** exactly when every value is closed. -/
theorem readTerms_render_iff {most : Nat} (hne : terms ≠ []) (hp : ∀ term ∈ terms, term.Plain)
    (hmost : terms.length ≤ most) :
    readTerms most (render terms) = some terms ↔ ∀ term ∈ terms, Closed term.value := by
  induction terms generalizing most with
  | nil => exact absurd rfl hne
  | cons term terms ih =>
    obtain ⟨hterm, hterms⟩ := List.forall_mem_cons.mp hp
    obtain ⟨most, rfl⟩ : ∃ k, most = k + 1 := ⟨most - 1, by simp at hmost; omega⟩
    rw [List.forall_mem_cons, render_cons, readTerms]
    by_cases hc : Closed term.value
    · rw [readTerm_of_closed hterm hc]
      cases terms with
      | nil => simp [following, hc]
      | cons next terms =>
        have hnext : (' ' :: render (next :: terms)).dropWhile isBlank =
            render (next :: terms) := by
          rw [List.dropWhile_cons_of_pos (by decide),
            dropWhile_render (hterms next List.mem_cons_self)]
        have hlen : (next :: terms).length ≤ most := by simpa using hmost
        have hrest := ih (by simp) hterms hlen
        have hcomma : (following (next :: terms)).dropWhile isBlank =
          ',' :: ' ' :: render (next :: terms) := rfl
        simp only [hcomma, hnext, Option.map_eq_some_iff, List.cons.injEq, true_and]
        rw [← hrest]
        simp [hc]
    · refine iff_of_false ?_ (fun h => hc h.1)
      intro h
      obtain ⟨rest, hread⟩ := readTerm_of_readTerms h
      exact hc (closed_of_readTerm hterm hread)

theorem newline_text (hp : term.Plain) : '\n' ∉ term.text := by
  have hkey : '\n' ∉ term.key := fun h => absurd (hp.key_chars _ h) (by decide)
  have hoperator : '\n' ∉ term.operator.text := by cases term.operator <;> decide
  simp [Term.text, hkey, hoperator, hp.no_newline]

theorem newline_render (hp : ∀ term ∈ terms, term.Plain) : '\n' ∉ render terms := by
  induction terms with
  | nil => simp [render]
  | cons term terms ih =>
    obtain ⟨hterm, hterms⟩ := List.forall_mem_cons.mp hp
    have hfollow : '\n' ∉ following terms := by
      cases terms with
      | nil => simp [following]
      | cons next terms => simpa [following] using ih hterms
    rw [render_cons, List.mem_append, not_or]
    exact ⟨newline_text hterm, hfollow⟩

theorem length_le_render (terms : List Term) : terms.length ≤ (render terms).length := by
  induction terms with
  | nil => exact Nat.le_refl 0
  | cons term terms ih =>
    have hfollow : (render terms).length ≤ (following terms).length := by
      cases terms with
      | nil => exact Nat.le_refl 0
      | cons next terms => exact (Nat.le_add_right _ 2)
    rw [render_cons, List.length_append, List.length_cons]
    have hquote : 1 ≤ term.text.length := by simp [Term.text]; omega
    omega

/-- **A rule says what was written** exactly when no value ends in a backslash. -/
theorem readRule_render_iff (hne : terms ≠ []) (hp : ∀ term ∈ terms, term.Plain) :
    readRule (render terms) = some terms ↔ ∀ term ∈ terms, Closed term.value := by
  rw [readRule, if_neg (newline_render hp)]
  exact readTerms_render_iff hne hp (length_le_render terms)

end Terms

end UdevRules
