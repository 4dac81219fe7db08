import Courier.Demo

/-! The demonstration program: it reads the files its run asks for and prints what the run
leaves behind. -/
namespace Courier.Demo

/-- The file at a path, if there is one, or the directory. -/
def entry (path : String) : IO (List (String × Option Bytes)) := do
  try
    let place ← IO.FS.realPath path
    if ← place.isDir then return [(path, none)]
    let content ← IO.FS.readBinFile place
    return [(path, some content.toList)]
  catch _ => return []

/-- Adds the files at the paths that what is known so far asks for. -/
def gather (paths : Files → List String) (files : Files) : IO Files := do
  let known := files.entries.map (·.1)
  let found ← ((paths files).filter fun path => !known.contains path).mapM entry
  return ⟨files.entries ++ found.flatten⟩

def processEnvironment : IO Settings.Environment := do
  let content ← IO.FS.readBinFile "/proc/self/environ"
  let texts := (Text.parts '\x00' (Utf8.decodeLossy content.toList)).filter (!·.isEmpty)
  return texts.map fun s =>
    let cs := s.toList
    (String.ofList (cs.takeWhile (· != '=')), String.ofList (cs.dropWhile (· != '=')).tail)

end Courier.Demo

open Courier in
def main : IO UInt32 := do
  let start ← Demo.processEnvironment
  let files ← Demo.gather (fun _ => [".env"]) ⟨[]⟩
  let files ← Demo.gather (Demo.settingsPaths start) files
  let files ← Demo.gather (Demo.certificatePaths start) files
  let outcome := Demo.run files start
  for line in outcome.stdout do
    IO.println line
  IO.eprint outcome.stderr
  return UInt32.ofNat outcome.code
