/-
Loading and saving settings.

Settings are made of layers, of which a later one wins: files in the working directory, a file in
the directory for settings of the user, a file that was asked for, and the environment.  A file
that was asked for has to be there.

* `Settings.Layer`, `Settings.layers` — the layers;
* `Settings.load` — the settings that the layers make;
* `Settings.save` — writes settings to a file.
-/
import Groundwork.Settings.Lenient
import Groundwork.Settings.Source

set_option autoImplicit false

namespace Groundwork.Settings

/-- Variables with their values, in the order of their names. -/
abbrev Variables := Table String String

/-- A layer of settings. -/
inductive Layer where
  /-- A file, and whether it has to be there. -/
  | file (path : FilePath) (required : Bool)
  /-- The environment. -/
  | environment

/-- The files of settings in the working directory. -/
def localFiles : List FilePath :=
  [⟨"infragraph.toml"⟩, ⟨".infragraph.toml"⟩, ⟨"config/infragraph.toml"⟩]

/-- The directory for settings of the user. -/
def userDirectory? (env : Variables) : Option FilePath := do
  let home ← (env.get? "HOME").filter (!·.isEmpty)
  match (env.get? "XDG_CONFIG_HOME").map FilePath.mk with
  | some p => if p.isAbsolute then return p else return (FilePath.mk home).join ⟨".config"⟩
  | none => return (FilePath.mk home).join ⟨".config"⟩

/-- The file of settings of the user, if there is one. -/
def userFile? (env : Variables) (d : Disk) : Option FilePath := do
  let p := (← userDirectory? env).join ⟨"infragraph/infragraph.toml"⟩
  if d.exists? p then some p else none

/-- The layers of settings, the last of which wins. -/
def layers (env : Variables) (d : Disk) (asked : Option FilePath) : List Layer :=
  localFiles.map (.file · false) ++ (userFile? env d).toList.map (.file · false) ++
    asked.toList.map (.file · true) ++ [.environment]

/-- The data of a layer. -/
def Layer.data (env : Variables) (d : Disk) : Layer → Except Fault Datum
  | .environment => .ok (ofVariables env.toList)
  | .file p required =>
    match ofFile d p with
    | .error f => .error f
    | .ok (some data) => .ok data
    | .ok none =>
      if required then .error (.config ("there is no file " ++ p.text)) else .ok (.record [])

/-- The settings that the layers make. -/
def load (env : Variables) (d : Disk) (asked : Option FilePath) : Except Fault Settings := do
  let data ← (layers env d asked).foldlM
    (fun old layer => return old.overlay (← layer.data env d)) (Datum.record [])
  match read lenient data with
  | some s => return s
  | none => throw (.config "a setting has the wrong form")

/-- Writes settings to a file. -/
def save (s : Settings) (p : FilePath) (d : Disk) : Except Fault Disk := do
  let text ← s.toToml
  match d.write p text.toUTF8 with
  | .ok d => return d
  | .error e => throw (.io e.message)

end Groundwork.Settings
