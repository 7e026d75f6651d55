import FormatEdits.FileTree

namespace FormatEdits.Logging

inductive Stream
  | stdout
  | stderr
  deriving DecidableEq, Repr

/-- A log without a handler has no form and no stream yet. -/
structure Log where
  level : Int := 30
  handler : Option Stream := none
  deriving DecidableEq, Repr

def form : Text := "%(asctime)s - %(name)s - %(levelname)s - %(message)s".toList

def levelVariable : Text := "FMTDIFF_LOG_LEVEL".toList

def levels : List (Text × Int) :=
  [("CRITICAL".toList,50),("FATAL".toList,50),("ERROR".toList,40),("WARNING".toList,30),
    ("WARN".toList,30),("INFO".toList,20),("DEBUG".toList,10),("NOTSET".toList,0)]

def infoLevel : Int := 20

/-- Upper case for the letters a to z, and for the two others whose upper case is one of A to Z. -/
def upper (c : Char) : Char :=
  if c = 'ı' then 'I' else if c = 'ſ' then 'S' else c.toUpper

/-- The level of a name in any case; an unknown name stands for the level of plain information. -/
def levelOf (name : Text) : Int := (levels.lookup (name.map upper)).getD infoLevel

/-- The first set-up of a log stays. Without a level the environment names it, and without a
stream the log goes where results go. -/
def setUp (host : Host) (level : Option Int) (stream : Option Stream) (log : Log) : Log :=
  match log.handler with
  | some _ => log
  | none =>
    { level := level.getD (levelOf ((host.valueOf? levelVariable).getD "INFO".toList))
      handler := some (stream.getD .stdout) }

end FormatEdits.Logging
