-- The file producer: `FileProducer::call` in `lib.rs` from the resolved name on, and
-- `atomic_write`. A file call under a timeout runs to its end on a thread of its own, so a timeout
-- that runs out only hides its answer.
import RustCamel.File.DoneNames
import RustCamel.File.PathGuard

namespace camel_file

open FileTree UnixPath Prog

/-- A piece of the component's code: it calls the file system, and it may fail. -/
abbrev FileProg (α : Type) := ExceptT CamelError (Prog Call Answer) α

def sys (c : Call) : Prog Call Answer (Answer c) := ask c

def look : FileProg Fs := ExceptT.lift (sys .look)

def checked {α : Type} (result : Except CamelError α) : FileProg α := ExceptT.mk (.done result)

/-- `timeout(..).await.map_err(..)?.map_err(CamelError::from)?` -/
def timeout {α : Type} (text : String) (op : Prog Call Answer (Except Fault α)) : FileProg α := do
  let result ← ExceptT.lift op
  let elapsed ← ExceptT.lift (sys .elapsed)
  if elapsed then throw (.ProcessorError text) else checked (result.mapError .Io)

/-- A call without a timeout, whose error is handed on. -/
def plain {α : Type} (op : Prog Call Answer (Except Fault α)) : FileProg α := do
  let result ← ExceptT.lift op
  checked (result.mapError .Io)

def ignored {α : Type} (op : Prog Call Answer (Except Fault α)) : FileProg Unit := do
  let _ ← ExceptT.lift op

/-! ## Directories -/

/-- `create_dir_all` over the components of a path from the last one back. -/
def create_dir_all_rev : List (Seg Text) → Prog Call Answer (Except Fault Unit)
  | [] => .done (.ok ())
  | last :: rest =>
    let path : Path := ⟨(last :: rest).reverse, false⟩
    -- the directory may be there already, also when another thread made it just now
    let unless_dir (fault : Fault) : Prog Call Answer (Except Fault Unit) :=
      .call .look fun fs => .done (if fs.is_dir path then .ok () else .error fault)
    .call (.mkdir path) fun
      | .ok _ => .done (.ok ())
      | .error .NotFound =>
        if last = .root then .done (.error .NotFound)
        else
          create_dir_all_rev rest >>= fun
            | .error fault => .done (.error fault)
            | .ok _ =>
              .call (.mkdir path) fun
                | .ok _ => .done (.ok ())
                | .error fault => unless_dir fault
      | .error fault => unless_dir fault

def create_dir_all (path : Path) : Prog Call Answer (Except Fault Unit) :=
  create_dir_all_rev path.components.reverse

/-! ## `atomic_write.rs` -/

def DEFAULT_TEMP_PREFIX : Text := ".tmp.".toList

def hex_digit (n : Nat) : Char := "0123456789abcdef".toList.getD n '0'

/-- `{:016x}` -/
def hex16 (n : Nat) : Text := (List.range 16).reverse.map fun i => hex_digit (n / 16 ^ i % 16)

def temp_name (prefix' : Option Text) (random : Nat) (file_name : Text) : Text :=
  prefix'.getD DEFAULT_TEMP_PREFIX ++ hex16 random ++ ['.'] ++ file_name

/-- The guard over the temporary file: it is removed unless the code below it comes through. -/
def guarded {α : Type} (temp_path : Path) (code : FileProg α) : FileProg α :=
  ExceptT.mk (code.run >>= fun
    | .ok a => .done (.ok a)
    | .error err => .call (.remove_file temp_path) fun _ => .done (.error err))

/-- `write_body_with_charset`. A body over the limit or in no known charset is a refused write. -/
def write_body (handle : Place) (body : List UInt8) : FileProg Unit :=
  timeout "Timeout writing file" (sys (.write handle body))

def fsync_parent_dir : FileProg Unit := do
  timeout "Timeout opening parent dir for fsync" (sys .sync)
  timeout "Timeout fsyncing parent dir" (sys .sync)

/-- The optional fsync of the temporary file. -/
def flush_temp (durable : Bool) : FileProg Unit :=
  if durable then timeout "Timeout fsyncing temp file" (sys .sync) else ignored (sys .sync)

/-- The temporary file, filled and renamed. -/
def write_temp (target_path temp_path : Path) (handle : Place) (body : List UInt8)
    (durable : Bool) : FileProg Unit := do
  write_body handle body
  flush_temp durable
  timeout "Timeout renaming temp file" (sys (.rename temp_path target_path))

def atomic_write (target_path : Path) (body : List UInt8) (prefix' : Option Text)
    (durable : Bool) : FileProg Unit := do
  let some parent := target_path.parent
    | throw (.ProcessorError ("target path has no parent directory: " ++
        display target_path.to_text))
  let some file_name := target_path.file_name
    | throw (.ProcessorError ("target path has no file_name component: " ++
        display target_path.to_text))
  let random_infix ← ExceptT.lift (sys .random)
  let temp_path := parent.join (parse (temp_name prefix' random_infix file_name))
  let handle ← timeout "Timeout creating temp file" (sys (.open_write temp_path true false))
  guarded temp_path (write_temp target_path temp_path handle body durable)
  if durable then fsync_parent_dir else pure ()

/-! ## `FileProducer::call` -/

def validated (dir_path target_path : Path) : FileProg Unit := do
  let fs ← look
  checked (validate_path_is_within_base fs dir_path target_path)

/-- The file-exist strategy. The answer is `false` when the file was there and is left alone. -/
def write_target (config : FileConfig) (target_path : Path) (body : List UInt8) :
    FileProg Bool := do
  match config.file_exist with
  | .Fail =>
    let handle ← timeout "Timeout opening file with create_new"
      (sys (.open_write target_path true false))
    write_body handle body
    plain (sys .sync)
    return true
  | .Append =>
    let handle ← timeout "Timeout opening file for append"
      (sys (.open_write target_path false false))
    write_body handle body
    plain (sys .sync)
    return true
  | .TryRename =>
    let some temp_prefix := config.temp_prefix
      | throw (.Config "fileExist=TryRename requires tempPrefix")
    atomic_write target_path body (some temp_prefix) config.durable
    return true
  | .Ignore =>
    let fs ← look
    if fs.exists_ target_path then return false
    else
      atomic_write target_path body config.temp_prefix config.durable
      return true
  | .Override =>
    atomic_write target_path body config.temp_prefix config.durable
    return true

/-- The marker for consumers: the name it has, and the file at that name. -/
def write_done (config : FileConfig) (dir_path : Path) (file_name : Text) : FileProg Unit := do
  match config.done_file_name with
  | none => return ()
  | some done_pattern =>
    let done_name := replace FILE_NAME file_name done_pattern
    checked (validate_relative_filename done_name "doneFileName")
    let done_path := dir_path.join (parse done_name)
    validated dir_path done_path
    let _ ← timeout "Timeout creating done file" (sys (.open_write done_path false true))

def auto_create_dirs (config : FileConfig) (target_path : Path) : FileProg Unit :=
  match config.auto_create, target_path.parent with
  | true, some parent => timeout "Timeout creating directories" (create_dir_all parent)
  | _, _ => pure ()

/-- From the second validation on. The answer is the path that was written, if one was. -/
def write_validated (config : FileConfig) (dir_path target_path : Path) (file_name : Text)
    (body : List UInt8) : FileProg (Option Path) := do
  validated dir_path target_path
  let written ← write_target config target_path body
  if written then
    write_done config dir_path file_name
    return some target_path
  else return none

/-- From the first validation on. -/
def produce (config : FileConfig) (dir_path target_path : Path) (file_name : Text)
    (body : List UInt8) : FileProg (Option Path) := do
  validated dir_path target_path
  auto_create_dirs config target_path
  write_validated config dir_path target_path file_name body

/-- `call` for a resolved name. -/
def call (config : FileConfig) (file_name : Text) (body : List UInt8) : FileProg (Option Path) := do
  checked (validate_relative_filename file_name "fileName")
  let dir_path := parse config.directory
  produce config dir_path (dir_path.join (parse file_name)) file_name body

end camel_file
