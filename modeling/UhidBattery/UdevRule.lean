import UhidBattery.Identity
import UhidBattery.Lib.UdevRules

/-!
# The udev rule of a headset

`Kind::udev_rule` splices the `phys` it is given into the text of a rule, and
refuses what would end the value early.

* `udevRule_eq`: the rule is five terms written out, for a quotable `phys`.
* `udevRule_reads_iff`: the rule says what it should, exactly when a `phys` that
  is not refused does not end in a backslash.
-/

namespace UhidBattery

open UdevRules (Text Term Closed render readRule)

/-- `char::is_control`: the general category `Cc`. -/
def isControl (c : Char) : Bool := c.toNat < 0x20 || (0x7f ≤ c.toNat && c.toNat ≤ 0x9f)

/-- `Kind::udev_rule`. -/
def Kind.udevRule (self : Kind) (phys : String) : Option String :=
  let quotable := !phys.toList.any fun c => c == '"' || isControl c
  if self = .headset ∧ quotable then
    some ("SUBSYSTEM==\"input\", KERNEL==\"input*\", ATTR\x7bphys\x7d==\"" ++ phys ++ "\", " ++
      "ENV\x7bSOUND_INITIALIZED\x7d=\"1\", ENV\x7bSOUND_FORM_FACTOR\x7d=\"headset\"")
  else none

/-- What the rule is to say. -/
def headsetTerms (phys : String) : List Term :=
  [⟨"SUBSYSTEM".toList, .equal, "input".toList⟩,
    ⟨"KERNEL".toList, .equal, "input*".toList⟩,
    ⟨"ATTR\x7bphys\x7d".toList, .equal, phys.toList⟩,
    ⟨"ENV\x7bSOUND_INITIALIZED\x7d".toList, .assign, "1".toList⟩,
    ⟨"ENV\x7bSOUND_FORM_FACTOR\x7d".toList, .assign, "headset".toList⟩]

/-- No double quote and no control character. -/
def Quotable (phys : String) : Prop := ∀ c ∈ phys.toList, c ≠ '"' ∧ isControl c = false

instance (phys : String) : Decidable (Quotable phys) :=
  List.decidableBAll (fun c => c ≠ '"' ∧ isControl c = false) phys.toList

section Rule

variable {phys : String}

theorem udevRule_eq (phys : String) :
    ∃ rule, rule.toList = render (headsetTerms phys) ∧
      Kind.headset.udevRule phys = if Quotable phys then some rule else none := by
  have hquot : (!phys.toList.any fun c => c == '"' || isControl c) = true ↔ Quotable phys := by
    simp [Quotable]
  refine ⟨"SUBSYSTEM==\"input\", KERNEL==\"input*\", ATTR\x7bphys\x7d==\"" ++ phys ++ "\", " ++
    "ENV\x7bSOUND_INITIALIZED\x7d=\"1\", ENV\x7bSOUND_FORM_FACTOR\x7d=\"headset\"", ?_, ?_⟩
  · simp only [String.toList_append, headsetTerms, render, Term.text, UdevRules.Operator.text]
    simp
  · by_cases h : Quotable phys
    · rw [if_pos h, Kind.udevRule, if_pos ⟨rfl, hquot.mpr h⟩]
    · rw [if_neg h, Kind.udevRule, if_neg fun h' => h (hquot.mp h'.2)]

theorem plain_of_all {term : Term} (hne : term.key ≠ [])
    (hkey : term.key.all UdevRules.isKeyChar = true) (hquote : '"' ∉ term.value)
    (hline : '\n' ∉ term.value) : term.Plain :=
  ⟨hne, List.all_eq_true.mp hkey, hquote, hline⟩

/-- A rule can hold a `phys` that is quotable. -/
theorem Quotable.plain (h : Quotable phys) : ∀ term ∈ headsetTerms phys, term.Plain := by
  have hquote : '"' ∉ phys.toList := fun hm => (h _ hm).1 rfl
  have hline : '\n' ∉ phys.toList := fun hm => absurd (h _ hm).2 (by decide)
  intro term hterm
  simp only [headsetTerms, List.mem_cons, List.not_mem_nil, or_false] at hterm
  rcases hterm with rfl | rfl | rfl | rfl | rfl
  · apply plain_of_all <;> decide
  · apply plain_of_all <;> decide
  · have hne : "ATTR\x7bphys\x7d".toList ≠ [] := by decide
    have hkey : "ATTR\x7bphys\x7d".toList.all UdevRules.isKeyChar = true := by decide
    exact plain_of_all hne hkey hquote hline
  · apply plain_of_all <;> decide
  · apply plain_of_all <;> decide

/-- A quotable `phys` is read back exactly when it does not end in a backslash. -/
theorem Quotable.reads_iff (h : Quotable phys) :
    readRule (render (headsetTerms phys)) = some (headsetTerms phys) ↔ Closed phys.toList := by
  have hne : headsetTerms phys ≠ [] := List.cons_ne_nil _ _
  rw [UdevRules.readRule_render_iff hne h.plain]
  constructor
  · intro hall
    exact hall ⟨"ATTR\x7bphys\x7d".toList, .equal, phys.toList⟩ (by simp [headsetTerms])
  · intro hc term hterm
    simp only [headsetTerms, List.mem_cons, List.not_mem_nil, or_false] at hterm
    rcases hterm with rfl | rfl | rfl | rfl | rfl
    · decide
    · decide
    · exact hc
    · decide
    · decide

/-- **A rule says what it should**, its `phys` character for character, exactly
when that `phys` does not end in a backslash. -/
theorem udevRule_reads_iff (phys : String) :
    (∀ rule, Kind.headset.udevRule phys = some rule →
      readRule rule.toList = some (headsetTerms phys)) ↔
    ¬ (Quotable phys ∧ phys.toList.getLast? = some '\\') := by
  obtain ⟨rule, htext, hrule⟩ := udevRule_eq phys
  by_cases h : Quotable phys
  · rw [if_pos h] at hrule
    have hone : (∀ rule', Kind.headset.udevRule phys = some rule' →
        readRule rule'.toList = some (headsetTerms phys)) ↔
          readRule rule.toList = some (headsetTerms phys) := by
      rw [hrule]
      simp
    rw [hone, htext, h.reads_iff]
    exact ⟨fun hc hlast => hc hlast.2, fun hn hlast => hn ⟨h, hlast⟩⟩
  · rw [if_neg h] at hrule
    refine iff_of_true ?_ fun h' => h h'.1
    intro rule' hrule'
    rw [hrule] at hrule'
    cases hrule'

end Rule

/-- A `phys` that ends in a backslash takes its value past the closing quote. -/
theorem udevRule_backslash :
    ∃ rule, Kind.headset.udevRule "seat\\" = some rule ∧
      readRule rule.toList ≠ some (headsetTerms "seat\\") := by
  have hquotable : Quotable "seat\\" := by decide
  obtain ⟨rule, htext, hrule⟩ := udevRule_eq "seat\\"
  rw [if_pos hquotable] at hrule
  refine ⟨rule, hrule, ?_⟩
  rw [htext, ne_eq, hquotable.reads_iff]
  decide

end UhidBattery
