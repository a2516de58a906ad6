/-!
# Choices with names

Every setting of a pipeline is a choice from a short fixed list, and each choice has exactly one
spelling in description files. `Named` collects the list and the spelling; `Named.ofName?` reads a
spelling back.
-/

namespace TileFusion

/-- A finite list of choices, each with the name that description files use for it. -/
class Named (α : Type) where
  /-- Every choice, in the order in which they are documented. -/
  all : List α
  /-- The spelling of a choice. -/
  name : α → String

/-- The choice spelled exactly `text`, letter case included. -/
def Named.ofName? {α : Type} [Named α] (text : String) : Option α :=
  Named.all.find? fun choice => Named.name choice == text

end TileFusion
