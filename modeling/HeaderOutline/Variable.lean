import HeaderOutline.Comment
import HeaderOutline.Declarator
import HeaderOutline.TemplateParam
/-!
# Variables

Data members of classes and variables of namespaces. One statement may declare several of them.
-/

namespace HeaderOutline

open HeaderOutline.Parser

inductive VariableModifier where
  | static | inline | constexpr | mutable | external | threadLocal
  deriving DecidableEq, Repr, Inhabited

namespace VariableModifier

/-- The modifier that a word stands for. -/
def ofWord? (word : Text) : Option VariableModifier :=
  if word = "static".toList then some .static
  else if word = "inline".toList then some .inline
  else if word = "constexpr".toList ∨ word = "constinit".toList then some .constexpr
  else if word = "mutable".toList then some .mutable
  else if word = "extern".toList then some .external
  else if word = "thread_local".toList then some .threadLocal
  else none

/-- The word that stands for the modifier. -/
def word : VariableModifier → Text
  | .static => "static".toList
  | .inline => "inline".toList
  | .constexpr => "constexpr".toList
  | .mutable => "mutable".toList
  | .external => "extern".toList
  | .threadLocal => "thread_local".toList

/-- Says that a word stands for no modifier. -/
def unknownMessage (word : Text) : Text := '`' :: word ++ "` is not a member modifier".toList

end VariableModifier

structure Variable where
  /-- Empty for a bit-field without a name. -/
  name : Text
  type : CType
  defaultValue : Option Text
  bitfield : Option Text
  modifiers : List VariableModifier
  comment : Option Text
  deriving BEq, Repr, Inhabited

namespace Variable

/-- A word in front of the type of a variable. -/
inductive Specifier where
  | modifier (modifier : VariableModifier)
  | const
  | volatile
  deriving DecidableEq

namespace Specifier

def modifier? : Specifier → Option VariableModifier
  | .modifier found => some found
  | _ => none

def parser : Parser Specifier := beforeGap (firstOf
  [(fun _ => .const) <$> keyword "const",
   (fun _ => .volatile) <$> keyword "volatile",
   (do
    let _ ← keyword "extern"
    let _ ← opt (afterGap (literal "\"C\""))
    pure (.modifier .external)),
   .modifier <$> identifier.filterMap VariableModifier.ofWord?])

end Specifier

def ofDeclarator (modifiers : List VariableModifier) (comment : Option Text) (declarator : Declarator) :
    Variable where
  name := declarator.name.getD []
  type := declarator.type
  defaultValue := declarator.defaultValue
  bitfield := declarator.bitfield
  modifiers := modifiers
  comment := comment

end Variable

open Variable in
/-- A whole statement that declares variables. The first one has to have a name or a bit width. -/
def variableStatement (room : Nat) : Parser (List Variable) := do
  let comment ← leadingComment
  let _ ← opt (templateHead room)
  let _ ← attributes
  let specifiers ← many Specifier.parser
  let type ← unqualifiedType room (specifiers.contains .const)
  let first ← declarator room type false
  if first.name.isNone && first.bitfield.isNone then mismatch (.rule .name)
  let others ← many do
    let _ ← spaced (char ',')
    declarator room type.declaredBase false
  let _ ← afterGap (char ';')
  pure ((first :: others).map (ofDeclarator (specifiers.filterMap Specifier.modifier?) comment))

end HeaderOutline
