import ObjectShape.Settings.Reading
import ObjectShape.Toml.Quoted
import ObjectShape.Toml.Reader

/-!
# Settings as a document
-/

namespace ObjectShape.Settings

set_option autoImplicit false

def ofText? (text : String) : Option Settings :=
  (Toml.read text).bind Spelling.strict.settings

def line (key value : String) : String :=
  key ++ " = " ++ value ++ "\n"

def toText (settings : Settings) : String :=
  "[compiler]\n" ++ line "cache" (if settings.compiler.cache then "true" else "false") ++
    line "empty_schema" (Toml.quote settings.compiler.emptySchema.name) ++
    "\n[logging]\n" ++ line "filter" (Toml.quote settings.logging.filter)

end ObjectShape.Settings
