/-!
# Fixed texts of the command line
-/

namespace Lexis

def versionNumber : String := "0.1.0"

def versionText : String := "Toylet " ++ versionNumber ++ "\n"

def usageText : String :=
  "\nToylet v" ++ versionNumber ++ " - token printer for the Toylet scripting language\n" ++
  "\n" ++
  "Usage:\n" ++
  "  toylet [options] [file]\n" ++
  "\n" ++
  "Options:\n" ++
  "  -h, --help      Show this help message\n" ++
  "  -v, --version   Show version\n" ++
  "  -e, --eval      Scan code from the command line\n" ++
  "\n" ++
  "Examples:\n" ++
  "  toylet                    Start interactive prompt\n" ++
  "  toylet script.toy         Print the tokens of a script file\n" ++
  "  toylet -e \"print 1 + 2;\"  Print the tokens of a snippet\n" ++
  "\n"

def bannerText : String :=
  "Toylet v" ++ versionNumber ++ " - Type 'exit' or Ctrl+D to quit\n\n"

def farewellText : String := "Goodbye!\n"

end Lexis
