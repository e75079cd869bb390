import Criteria.Text.Cut

/-!
# What the command says about itself

The texts for a version, for help, and for arguments that are not valid.
-/

namespace Criteria.Command

/-- The name and version of the command. -/
def versionText : String := "sift 0.1.0"

/-- How the command is called. -/
def usage : String := "Usage: sift [OPTIONS] <ROOT> [PARAMS]"

/-- The arguments and options of the command. -/
def helpText : String :=
  Text.join "\n"
    ["Compile search parameters into SQL",
      "",
      usage,
      "",
      "Arguments:",
      "  <ROOT>    Root entity to search (e.g. Person)",
      "  [PARAMS]  Search parameters as JSON, @path to read a file, or - for stdin",
      "",
      "Options:",
      "  -s, --schema <SCHEMA>                  Path to the JSON schema document [env: SIFT_SCHEMA]",
      "  -c, --config <CONFIG>                  Path to config file [env: SIFT_CONFIG]",
      "  -b, --backend <BACKEND>                SQL backend (sqlite, postgres or duckdb) [env: SIFT_BACKEND]",
      "      --distinct <DISTINCT>              Group results by the root primary key [env: SIFT_DISTINCT]",
      "      --ignore-unknown <IGNORE_UNKNOWN>  Drop unknown conditions and sorts instead of failing",
      "  -f, --format <FORMAT>                  Output format [default: text] [possible values: text, json]",
      "  -h, --help                             Print help",
      "  -V, --version                          Print version"]

end Criteria.Command
