import Pushdown.Config
import Pushdown.Toml.Reader

/-!
# Settings from a TOML document

Every key may be missing, and no other key is allowed. The dialect is its name, or a table whose
one key is the name and whose one item is empty.
-/

namespace Pushdown.Config

open Toml

/-- The dialect that an item stands for. -/
def dialectOf? : Item → Option Dialect
  | .text name => Dialect.ofName? name
  | .table _ [(name, .emptyArray)] => Dialect.ofName? name
  | .table _ [(name, .table _ [])] => Dialect.ofName? name
  | _ => none

/-- The settings with one entry of a document. -/
def setEntry (c : Config) : String × Item → Option Config
  | ("dialect", item) => (dialectOf? item).map fun dialect => { c with dialect }
  | ("table_alias", .text tableAlias) => some { c with tableAlias }
  | ("not_equal", .text op) => some { c with notEqual := some op }
  | _ => none

/-- The settings that the text of a document gives, validated. -/
def ofToml (text : String) : Except Problem Config :=
  match (read text).bind fun entries => entries.foldlM setEntry {} with
  | some c => c.validate
  | none => .error .malformed

end Pushdown.Config
