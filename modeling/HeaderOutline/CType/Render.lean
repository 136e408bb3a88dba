import HeaderOutline.CType.Basic
/-!
# Rendering types

The text of a type. `const` stands behind pointers and references and in front of everything else, and a
pointer or reference to a function writes its mark between result and parameters.
-/

namespace HeaderOutline.CType

mutual

def render : CType → Text
  | .path names => Text.join "::".toList names
  | .generic base args => render base ++ '<' :: renderList args ++ ['>']
  | .member outer inner => render outer ++ "::".toList ++ render inner
  | .pointer (.function result params) => render result ++ "(*)(".toList ++ renderList params ++ [')']
  | .pointer target => render target ++ ['*']
  | .reference (.function result params) => render result ++ "(&)(".toList ++ renderList params ++ [')']
  | .reference target => render target ++ ['&']
  | .const (.pointer target) => render (.pointer target) ++ " const".toList
  | .const (.reference target) => render (.reference target) ++ " const".toList
  | .const type => "const ".toList ++ render type
  | .function result params => render result ++ '(' :: renderList params ++ [')']
  | .array element size => render element ++ '[' :: size.getD [] ++ [']']
  | .pack pattern => render pattern ++ "...".toList
  | .value text => text

def renderList : List CType → Text
  | [] => []
  | [type] => render type
  | type :: next :: types => render type ++ ", ".toList ++ renderList (next :: types)

end

end HeaderOutline.CType
