import LiveSpec.Fixture
import LiveSpec.Json.Reader
import LiveSpec.Store.Path
import LiveSpec.Yaml.Schema

/-!
# Loading fixtures

The data of a fixture can be kept in a file, as JSON or as YAML. The extension of the file says
which, and without one it is YAML. The fixture is named after the file.
-/

namespace LiveSpec.StockFixture

/-- Serves the data of a JSON text. -/
def ofJson (name text : String) : Except Error StockFixture :=
  (Json.read? text).elim (.error .json) (ofData name)

/-- Serves the data of a YAML text. -/
def ofYaml (name text : String) : Except Error StockFixture :=
  (Yaml.read? text).elim (.error .yaml) (ofData name)

/-- Says whether the name of a file says that it holds JSON. -/
def isJsonFile (path : String) : Bool :=
  ((FilePath.extension? path).map (Text.sameName "json")).getD false

/-- Serves the data of a file, which may be missing. -/
def ofFile (path : String) (content : Except FileFault String) : Except Error StockFixture :=
  match content with
  | .error fault => .error (.ofFile fault)
  | .ok text =>
    if isJsonFile path then ofJson (FilePath.stem path) text else ofYaml (FilePath.stem path) text

end LiveSpec.StockFixture
