import GoGraft.Text.Basic

/-! What the command says about itself. -/

namespace GoGraft.Command

def versionText : Text :=
  "inject-cli 0.1.0\n".toList

/-- The name of the variable that gives the ending of file names when no option does. -/
def suffixVariable : String :=
  "PROTOC_GO_INJECT_SUFFIX"

def defaultSuffix : Text :=
  ".pb.go".toList

def helpLines (environmentSuffix : Text) : List Text :=
  ["Inject imports, fields and struct tags into generated Go code".toList,
   [],
   "Usage: protoc-go-inject [OPTIONS] <PATHS>...".toList,
   [],
   "Arguments:".toList,
   "  <PATHS>...  Files to process, or directories to walk recursively".toList,
   [],
   "Options:".toList,
   "      --suffix <SUFFIX>  File name suffix selected when walking directories [env: ".toList ++
     suffixVariable.toList ++ "=".toList ++ environmentSuffix ++ "] [default: ".toList ++
     defaultSuffix ++ "]".toList,
   "      --check            Do not write; fail if any file would change".toList,
   "      --json             Print a JSON summary instead of progress lines".toList,
   "  -v, --verbose...       Increase log verbosity (-v debug, -vv trace). ".toList ++
     "\x60RUST_LOG\x60 takes precedence".toList,
   "  -h, --help             Print help".toList,
   "  -V, --version          Print version".toList,
   [],
   "Annotations (written in comments of the generated source):".toList,
   "  // @goimport: \"gorm.io/gorm\"           add an import to the file".toList,
   "  // @gofield: gorm.Model                 embed a type in the enclosing struct".toList,
   "  // @gofield: LastName string            add a named field to the enclosing struct".toList,
   "  Id string \x60protobuf:\"...,name=id,...\"\x60 // @gotags: ".toList ++
     "gorm:\"column:id;primaryKey\"".toList,
   "                                          merge tags into the field named by ".toList ++
     "\x60name=\x60".toList]

def helpText (environmentSuffix : Option Text) : Text :=
  (helpLines (environmentSuffix.getD [])).flatMap (· ++ ['\n'])

end GoGraft.Command
