import Pushdown.Config
import Pushdown.Fragment.Reconcile
import Pushdown.Json.Leaf
import Pushdown.Json.Reader
import Pushdown.Json.Writer

/-!
# Settings and fragments as JSON

Settings are a closed record: unknown members are refused, and every field may be missing.
-/

namespace Pushdown

open Json

/-- A dialect as a document. -/
def Dialect.toJson (d : Dialect) : Json := .text d.name

/-- The dialect that a document is. -/
def Dialect.decode : Decoder Dialect := unitVariant ofName?

namespace Config

/-- Settings as a document. -/
def toJson (c : Config) : Json :=
  .record [("dialect", c.dialect.toJson), ("table_alias", .text c.tableAlias),
    ("not_equal", .optionalText c.notEqual)]

/-- The settings that a document is. They are not validated. -/
def decode : Decoder Config :=
  record? true ["dialect", "table_alias", "not_equal"] fun depth fields =>
    match fields with
    | [dialect, tableAlias, notEqual] => do
        let base : Config := {}
        let dialect ← defaulted base.dialect (Dialect.decode depth) dialect
        let tableAlias ← defaulted base.tableAlias asText tableAlias
        let notEqual ← optional asText notEqual
        some { dialect, tableAlias, notEqual }
    | _ => none

/-- The settings that the text of a document is. -/
def ofJsonText? (text : String) : Option Config := (Json.read text).bind (decodeWith decode)

end Config

/-- A fragment as a document. -/
def Fragment.toJson (f : Fragment) : Json :=
  .record [("sql", .text f.sql), ("parameters", .array (f.parameters.map BoundValue.toJson))]

end Pushdown
