import AddressSpace.Report
/-!
# The command line

Prints the listings of a snapshot, whose path is the first argument or else the value of `IPAM_SNAPSHOT`. Nothing is
printed when the snapshot cannot be read.
-/

namespace AddressSpace

/-- The variables of the environment that matter. -/
def environment : IO (String → Option String) := do
  let names := [Limits.Setting.splitDepth, .planEntriesV4, .planEntriesV6, .mergeMembers].map Limits.Setting.variable
  let values ← names.mapM fun name => do
    return (name, ← IO.getEnv name)
  return fun name => (values.lookup name).join

end AddressSpace

open AddressSpace in
/-- Prints the listing of a snapshot, whose path is the first argument or else a setting of the environment. The exit code is 1
when there is none, or when it cannot be read. -/
def main (args : List String) : IO UInt32 := do
  let path ← match args with
    | path :: _ => pure (some path)
    | [] => IO.getEnv "IPAM_SNAPSHOT"
  let some path := path
    | do
      IO.eprintln "usage: address-space <snapshot.json> (or set IPAM_SNAPSHOT)"
      return 1
  let limits := Limits.ofEnvironment (← environment)
  let text ← try
      IO.FS.readFile path
    catch e =>
      IO.eprintln s!"snapshot I/O error on {path}: {e}"
      return 1
  match report limits text with
  | .ok listing =>
    IO.print listing
    return 0
  | .error e =>
    IO.eprintln e.message
    return 1
