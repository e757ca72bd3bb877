import Kitting.Command.Run
import Kitting.World.Image

open Kitting

def worldOfLine (line : String) : World :=
  let image := (Json.ofText? line).getD .null
  World.ofImage (.ofText ("/" ++ (image.get "cwd").strD)) (image.get "stamp").strD (image.get "day").strD
    (image.get "instant").strD image

def main (args : List String) : IO UInt32 := do
  let world := worldOfLine (← (← IO.getStdin).getLine)
  let output ← IO.getStdout
  match (Command.run args).run world with
  | .ok code w =>
    output.putStr w.output
    return UInt32.ofNat code
  | .error e w =>
    output.putStr w.output
    (← IO.getStderr).putStrLn e.message
    return 1
