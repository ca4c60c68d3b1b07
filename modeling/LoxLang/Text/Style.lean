/-! # Highlighting

Where diagnostics go to a terminal, parts of them are highlighted. How that is done is up to the
terminal, so both highlightings are given to the program from outside. -/

namespace LoxLang
namespace Text

/-- How parts of a diagnostic are highlighted. -/
structure Style where
  /-- The place of an error. -/
  bold : String → String
  /-- The label of an error. -/
  alarm : String → String

namespace Style

/-- Nothing is highlighted, as where there is no terminal. -/
structure IsPlain (style : Style) : Prop where
  bold_eq : ∀ s, style.bold s = s
  alarm_eq : ∀ s, style.alarm s = s

def plain : Style := ⟨id, id⟩

theorem isPlain_plain : plain.IsPlain := ⟨fun _ => rfl, fun _ => rfl⟩

end Style
end Text
end LoxLang
