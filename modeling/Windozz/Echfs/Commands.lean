import Windozz.Echfs.Alloc
import Windozz.Echfs.Entry

set_option autoImplicit false

/-! # The commands `mkdir`, `import`, `export` and `ls`

Each command takes the arguments behind its name (`argv[3]`, `argv[4]`, ...). What it finds on the
host is a parameter: the files, the clock (`time(NULL)`) and the contents of memory fresh from
`malloc`. A command returns with a report or leaves through a fault; the image is returned in
both cases, for what was written before a fault stays written.
-/

namespace Windozz.Echfs

/-- The ways a command returns. -/
inductive Report where
  | missingDirectory
  | missingSource
  | missingDestination
  | notRegular
  | directoryExists
  | fileExists
  | sourceNotAccessible
  | destinationNotAccessible
  | fileNotFound
  | created
  | imported
  /-- The contents of the destination file. -/
  | exported (dest : List UInt8)
  deriving DecidableEq, Repr

/-- What is printed on `stderr`, for the arguments as strings. -/
def Report.text (argv0 argv2 argv3 argv4 : String) : Report → String
  | .missingDirectory => argv0 ++ ": " ++ argv2 ++ ": missing argument: directory name.\n"
  | .missingSource => argv0 ++ ": " ++ argv2 ++ ": missing argument: source file.\n"
  | .missingDestination => argv0 ++ ": " ++ argv2 ++ ": missing argument: destination file.\n"
  | .notRegular =>
      argv0 ++ ": warning: source file \x60" ++ argv3 ++ "\x60 is not a regular file, exiting.\n"
  | .directoryExists =>
      argv0 ++ ": " ++ argv2 ++ ": directory \x60" ++ argv3 ++ "\x60 already exists.\n"
  | .fileExists =>
      argv0 ++ ": " ++ argv2 ++ ": error: file \x60" ++ argv4 ++ "\x60 already exists.\n"
  | .sourceNotAccessible =>
      argv0 ++ ": " ++ argv2 ++ ": error: couldn't access \x60" ++ argv3 ++ "\x60.\n"
  | .destinationNotAccessible =>
      argv0 ++ ": " ++ argv2 ++ ": error: couldn't access \x60" ++ argv4 ++ "\x60.\n"
  | .fileNotFound =>
      argv0 ++ ": " ++ argv2 ++ ": error: file \x60" ++ argv3 ++ "\x60 not found.\n"
  | .created => ""
  | .imported => ""
  | .exported _ => ""

/-! ## `mkdir_cmd` -/

/-- The entry `mkdir_cmd` writes. -/
def directoryEntry (parent_id : UInt64) (name : List UInt8) (id now : UInt64) : Entry :=
  { Entry.zero with
    parent_id := parent_id, type := DIRECTORY_TYPE, name := NameField.store name, payload := id,
    time := now }

/-- `mkdir_cmd`. -/
def mkdirCmd (g : Geometry) (now : UInt64) : List (List UInt8) → Image → Except Fault Report × Image
  | [], img => (.ok .missingDirectory, img)
  | argv3 :: _, img =>
      match pathResolver g img argv3 DIRECTORY_TYPE with
      | .error e => (.error e, img)
      | .ok path_result =>
          if path_result.not_found = false then (.ok .directoryExists, img)
          else
            match findEmpty g img with
            | .error e => (.error e, img)
            | .ok i =>
                match getFreeId g img with
                | .error e => (.error e, img)
                | .ok id =>
                    match wrEntry g img i
                      (directoryEntry path_result.parent.payload path_result.name id now) with
                    | .error e => (.error e, img)
                    | .ok img' => (.ok .created, img')

/-! ## `import_cmd` -/

/-- What `stat` and `fopen` find under a name; `contents` is `none` when `fopen` fails. -/
structure HostFile where
  regular : Bool
  contents : Option (List UInt8)

/-- `sizeof(newdirname)`. -/
def NEWDIRNAME_LEN : Nat := 4096

/-- The loop at label `subdir` of `import_cmd`: `newdirname` holds the characters of `argv[4]`
read so far. At each separator the directory so far is made, until `path_resolver` finds all
directories of the path. `clock i` is the time read with `i` characters in `newdirname`. -/
def makeDirs (g : Geometry) (clock : Nat → UInt64) (argv4 : List UInt8) :
    List UInt8 → List UInt8 → Image → Except Fault Unit × Image
  | [], _, img => (.error .overrun, img)
  | c :: rest, newdirname, img =>
      if NEWDIRNAME_LEN ≤ newdirname.length then (.error .overrun, img)
      else if c = SLASH then
        match mkdirCmd g (clock newdirname.length) [newdirname] img with
        | (.error e, img') => (.error e, img')
        | (.ok _, img') =>
            match pathResolver g img' argv4 FILE_TYPE with
            | .error e => (.error e, img')
            | .ok path_result =>
                if path_result.failure then makeDirs g clock argv4 rest (newdirname ++ [c]) img'
                else (.ok (), img')
      else makeDirs g clock argv4 rest (newdirname ++ [c]) img

/-- The entry `import_cmd` writes. -/
def fileEntry (parent_id : UInt64) (name : List UInt8) (start size : Nat) (now : UInt64) : Entry :=
  { Entry.zero with
    parent_id := parent_id, type := FILE_TYPE, name := NameField.store name,
    payload := UInt64.ofNat start, size := UInt64.ofNat size, time := now }

/-- The part of `import_cmd` behind the directories. -/
def importFile (g : Geometry) (source : Option (List UInt8)) (now : UInt64)
    (block_buf argv4 : List UInt8) (img : Image) : Except Fault Report × Image :=
  match pathResolver g img argv4 FILE_TYPE with
  | .error e => (.error e, img)
  | .ok path_result =>
      if path_result.not_found = false then (.ok .fileExists, img)
      else
        match source with
        | none => (.ok .sourceNotAccessible, img)
        | some source =>
            let (payload, img') := importChain g source block_buf img
            match findEmpty g img' with
            | .error e => (.error e, img')
            | .ok i =>
                match wrEntry g img' i (fileEntry path_result.parent.payload path_result.name
                  payload source.length now) with
                | .error e => (.error e, img')
                | .ok img'' => (.ok .imported, img'')

/-- `import_cmd`. -/
def importCmd (g : Geometry) (host : List UInt8 → HostFile) (clock : Nat → UInt64)
    (block_buf : List UInt8) : List (List UInt8) → Image → Except Fault Report × Image
  | [], img => (.ok .missingSource, img)
  | [_], img => (.ok .missingDestination, img)
  | argv3 :: argv4 :: _, img =>
      if (host argv3).regular = false then (.ok .notRegular, img)
      else
        match pathResolver g img argv4 FILE_TYPE with
        | .error e => (.error e, img)
        | .ok path_result =>
            let (made, img') :=
              if path_result.failure then makeDirs g clock argv4 argv4 [] img else (.ok (), img)
            match made with
            | .error e => (.error e, img')
            | .ok () =>
                importFile g (host argv3).contents (clock argv4.length) block_buf argv4 img'

/-! ## `export_cmd` -/

/-- `export_cmd`. `writable` tells whether the destination can be opened, `pos` is the position
in the image the lookup leaves. -/
def exportCmd (g : Geometry) (writable : List UInt8 → Bool) (pos : Nat) (block_buf : List UInt8) :
    List (List UInt8) → Image → Except Fault Report
  | [], _ => .ok .missingSource
  | [_], _ => .ok .missingDestination
  | argv3 :: argv4 :: _, img =>
      match pathResolver g img argv3 FILE_TYPE with
      | .error e => .error e
      | .ok path_result =>
          if path_result.not_found then .ok .fileNotFound
          else if writable argv4 = false then .ok .destinationNotAccessible
          else
            match exportChain g img path_result.target.payload.toNat path_result.target.size.toNat
              pos block_buf with
            | none => .error .endless
            | some dest => .ok (.exported dest)

/-! ## `ls_cmd` -/

/-- The ways `ls_cmd` returns. -/
inductive ListReport where
  | invalidDirectory
  | listed
  deriving DecidableEq, Repr

/-- What is printed on `stderr`, for the arguments as strings. -/
def ListReport.text (argv0 argv2 argv3 : String) : ListReport → String
  | .invalidDirectory =>
      argv0 ++ ": " ++ argv2 ++ ": error: invalid directory \x60" ++ argv3 ++ "\x60.\n"
  | .listed => ""

/-- The line of an entry: its name, in brackets if it is a directory. -/
def lsLine (entry : Entry) : List UInt8 :=
  if entry.type = DIRECTORY_TYPE then [91] ++ entry.name.cstr ++ [93, 10]
  else entry.name.cstr ++ [10]

/-- The loop of `ls_cmd` from entry `i` on; `out` is what is on `stdout`. -/
def lsLoop (g : Geometry) (img : Image) (id : UInt64) :
    Nat → Nat → List UInt8 → Except Fault ListReport × List UInt8
  | 0, _, out => (.error .endless, out)
  | fuel + 1, i, out =>
      match rdEntry g img i with
      | .error e => (.error e, out)
      | .ok entry =>
          if entry.parent_id = 0 then (.ok .listed, out)
          else if entry.parent_id ≠ id then lsLoop g img id fuel (i + 1) out
          -- `fputs` of a name that no NUL ends
          else if 0 ∉ entry.name.val then (.error .overrun, out)
          else lsLoop g img id fuel (i + 1) (out ++ lsLine entry)

/-- `ls_cmd`: its report and what it prints on `stdout`. The second call of `path_resolver` repeats
the first. -/
def lsCmd (g : Geometry) : List (List UInt8) → Image → Except Fault ListReport × List UInt8
  | [], img => lsLoop g img ROOT_ID SCAN_ROUNDS 0 []
  | argv3 :: _, img =>
      match pathResolver g img argv3 DIRECTORY_TYPE with
      | .error e => (.error e, [])
      | .ok path_result =>
          if path_result.not_found then (.ok .invalidDirectory, [])
          else lsLoop g img path_result.target.payload SCAN_ROUNDS 0 []

end Windozz.Echfs
