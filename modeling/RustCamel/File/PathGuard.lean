-- The checks that keep the file producer in its directory (`path_guard.rs`), and the checks of an
-- endpoint's configuration (`FileConfig::validate`).
import RustCamel.File.Filesystem

namespace camel_file

open FileTree UnixPath

inductive CamelError where
  | ProcessorError (text : String)
  | Config (text : String)
  | InvalidUri (text : String)
  | Io (fault : Fault)
  | ChannelClosed
  deriving DecidableEq

def display (text : Text) : String := String.ofList text

def NUL : Char := Char.ofNat 0

/-! ## `path_guard.rs` -/

def path_contains_traversal (path : Text) : Bool := (parse path).has_up

def validate_relative_filename (raw : Text) (label : String) : Except CamelError Unit :=
  if raw.isEmpty then
    .error (.ProcessorError (label ++ " resolved to an empty path"))
  else if raw.contains NUL then
    .error (.ProcessorError (label ++ " contains a NUL byte"))
  else if (parse raw).is_absolute then
    .error (.ProcessorError (label ++
      " must be relative to the endpoint directory, got absolute path: '" ++ display raw ++ "'"))
  else if path_contains_traversal raw then
    .error (.ProcessorError (label ++ " contains directory traversal: '" ++ display raw ++ "'"))
  else .ok ()

def is_valid_temp_prefix (text : Text) : Bool :=
  !text.contains NUL && !(parse text).is_absolute && !text.contains '/' && !text.contains '\\'

/-- The first symlink among the components below the base, each added to the ones before it. -/
def symlinked_component (fs : Fs) (cumulative : Path) : List (Seg Text) → Option Path
  | [] => none
  | component :: rest =>
    let pushed := ⟨cumulative.components ++ [component], false⟩
    if isLink (fs.symlink_metadata pushed) then some pushed
    else symlinked_component fs pushed rest

/-- The walk up from a path that is not there, over its components from the last one back. -/
def nearest_ancestor (fs : Fs) (base_dir : Path) : List (Seg Text) → Path
  | [] => base_dir
  | last :: rest =>
    let ancestor := ⟨(last :: rest).reverse, false⟩
    if (fs.symlink_metadata ancestor).isSome then ancestor
    else if last = .root then base_dir
    else nearest_ancestor fs base_dir rest

def existing_ancestor (fs : Fs) (base_dir target_path : Path) : Path :=
  if (fs.symlink_metadata target_path).isSome then target_path
  else
    match target_path.parent with
    | some parent => nearest_ancestor fs base_dir parent.components.reverse
    | none => base_dir

/-- `if bad { return Err(err) }` -/
def reject_if (bad : Bool) (err : CamelError) : Except CamelError Unit :=
  if bad then .error err else .ok ()

/-- The part of the target below the base, which must not climb. -/
def relative_to_base (base_dir target_path : Path) : Except CamelError Path :=
  match target_path.strip_prefix base_dir with
  | none =>
    .error (.ProcessorError ("Path '" ++ display target_path.to_text ++ "' is not under base '" ++
      display base_dir.to_text ++ "'"))
  | some rel =>
    if rel.has_up then
      .error (.ProcessorError
        ("Path '" ++ display target_path.to_text ++ "' contains directory traversal"))
    else .ok rel

/-- Symlink-chain rejection below the base. -/
def reject_symlinks (fs : Fs) (base_dir target_path rel : Path) : Except CamelError Unit :=
  match symlinked_component fs base_dir rel.components with
  | none => .ok ()
  | some cumulative =>
    .error (.ProcessorError ("Path '" ++ display target_path.to_text ++
      "' traverses symlinked component '" ++ display cumulative.to_text ++ "' below base '" ++
      display base_dir.to_text ++ "'"))

/-- Nearest-existing-ancestor containment. -/
def check_ancestor (fs : Fs) (base_dir target_path : Path) (canonical_base : Place) :
    Except CamelError Unit := do
  let ancestor := existing_ancestor fs base_dir target_path
  let canonical_ancestor ← (fs.canonicalize ancestor).mapError fun _ =>
    .ProcessorError ("Cannot canonicalize existing ancestor '" ++ display ancestor.to_text ++ "'")
  reject_if (!canonical_base.isPrefixOf canonical_ancestor)
    (.ProcessorError ("Path '" ++ display target_path.to_text ++ "' is outside base directory '" ++
      display base_dir.to_text ++ "'"))

def validate_path_is_within_base (fs : Fs) (base_dir target_path : Path) : Except CamelError Unit :=
  if fs.exists_ base_dir then do
    let canonical_base ← (fs.canonicalize base_dir).mapError fun _ =>
      .ProcessorError "Cannot canonicalize base directory"
    let rel ← relative_to_base base_dir target_path
    reject_symlinks fs base_dir target_path rel
    check_ancestor fs base_dir target_path canonical_base
  else do
    let _ ← relative_to_base base_dir target_path

/-! ## The configuration -/

inductive FileExistStrategy where
  | Override
  | Append
  | Fail
  | Ignore
  | TryRename
  deriving DecidableEq

inductive ReadLockStrategy where
  | None
  | InProcess
  | Rename

inductive IdempotentKey where
  | None
  | FileName
  | FilePath
  | FileSize
  | Digest

structure FileConfig where
  directory : Text
  noop : Bool := false
  delete : Bool := false
  move_to : Option Text := none
  file_name : Option Text := none
  recursive : Bool := false
  file_exist : FileExistStrategy := .Override
  read_lock_strategy : ReadLockStrategy := .None
  idempotent_key : IdempotentKey := .None
  done_file_name : Option Text := none
  temp_prefix : Option Text := none
  durable : Bool := false
  auto_create : Bool := true
  starting_directory_must_exist : Bool := false
  max_depth : Nat := 2 ^ 64 - 1
  min_depth : Nat := 0
  max_messages_per_poll : Int := 0
  eager_max_messages_per_poll : Bool := true

def DEFAULT_MOVE_TO : Text := ".camel".toList

def check_move_to : Option Text → Except CamelError Unit
  | none => .ok ()
  | some move_to =>
    if path_contains_traversal move_to then
      .error (.Config ("move_to contains path traversal component: " ++ display move_to))
    else if (parse move_to).is_absolute then
      .error (.InvalidUri
        ("move_to must be relative path within base directory: " ++ display move_to))
    else .ok ()

def check_temp_prefix : Option Text → Except CamelError Unit
  | none => .ok ()
  | some temp_prefix =>
    if path_contains_traversal temp_prefix then
      .error (.Config ("temp_prefix contains path traversal component: " ++ display temp_prefix))
    else if is_valid_temp_prefix temp_prefix = false then
      .error (.Config ("temp_prefix must be plain filename prefix " ++
        "(no path separators, absolute paths, or null bytes)"))
    else .ok ()

def check_file_name : Option Text → Except CamelError Unit
  | none => .ok ()
  | some file_name =>
    if file_name.isEmpty then .error (.Config "file_name must not be empty")
    else if file_name.contains NUL then
      .error (.Config "file_name must not contain null bytes")
    else .ok ()

def FileConfig.validate (fs : Fs) (config : FileConfig) : Except CamelError FileConfig := do
  check_move_to config.move_to
  check_temp_prefix config.temp_prefix
  reject_if (config.file_exist = .TryRename && config.temp_prefix.isNone)
    (.Config "fileExist=TryRename requires tempPrefix to be set")
  check_file_name config.file_name
  reject_if (config.min_depth > config.max_depth)
    (.Config "minDepth cannot be greater than maxDepth")
  reject_if (config.starting_directory_must_exist && !fs.exists_ (parse config.directory))
    (.Config ("starting directory does not exist: " ++ display config.directory))
  return { config with
    move_to := if config.noop || config.delete then none
      else some (config.move_to.getD DEFAULT_MOVE_TO) }

end camel_file
