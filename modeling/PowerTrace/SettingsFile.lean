import PowerTrace.FileTree
import PowerTrace.Toml.Reader
import PowerTrace.Toml.Writer

/-!
# The settings file

Settings are kept in a file of their own, by default `idlescope/config.toml` in the directory
`.config` of the user's home.  Without a default file the settings are the defaults.
-/

namespace PowerTrace

/-- The name of the program. -/
def programName : String := "idlescope"

/-- The version of the program. -/
def programVersion : String := "0.1.0"

namespace Settings

/-- The settings that a text holds. -/
def parse (text : String) : Except Error Settings :=
  match (Toml.document? text.toList).bind (Settings.ofDocument? Toml.dialect) with
  | some s => .ok s
  | none => .error (.config "Failed to parse config: the file does not hold settings")

/-- The directory of the default file; without a home it is below the current directory. -/
def directory (home : Option String) : String :=
  let base := match home with
    | none | some "" => ".config"
    | some h => h ++ "/.config"
  base ++ "/" ++ programName

/-- The path of the default file. -/
def path (home : Option String) : String := directory home ++ "/config.toml"

/-- The settings in a file. -/
def loadFrom (files : FileTree) (path : String) : Except Error Settings :=
  match files.readText path with
  | .ok text => parse text
  | .error e => .error (.io e)

/-- The settings in the default file, the default settings if there is none. -/
def load (files : FileTree) (home : Option String) : Except Error Settings :=
  if files.contains (path home) then loadFrom files (path home) else .ok {}

/-- The files after the settings are written to one of them. -/
def saveTo (s : Settings) (files : FileTree) (path : String) : Except Error FileTree :=
  match files.write path s.toml.toUTF8 with
  | .ok files => .ok files
  | .error e => .error (.io e)

/-- The files after the settings are written to the default file; its directory is made. -/
def save (s : Settings) (files : FileTree) (home : Option String) : Except Error FileTree :=
  match files.makeDirs (directory home) with
  | .ok files => s.saveTo files (path home)
  | .error e => .error (.io e)

end Settings

end PowerTrace
