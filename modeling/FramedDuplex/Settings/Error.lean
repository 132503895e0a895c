/-!
# What can be wrong with settings

A settings file that cannot be read or written, a text that is no settings, and
a value that no connection can be made with.
-/

namespace FramedDuplex

/-- Why settings were not taken. -/
inductive ConfigError
  | io (path reason : String)
  | parse (path reason : String)
  | invalid (reason : String)
deriving DecidableEq, Repr

/-- An error in words. -/
def ConfigError.message : ConfigError → String
  | io path reason => s!"failed to read config file '{path}': {reason}"
  | parse path reason => s!"failed to parse config file '{path}': {reason}"
  | invalid reason => s!"configuration validation failed: {reason}"

end FramedDuplex
