-- The polling side of the file component (`poll_logic.rs`): the filters, one file with its lock,
-- its idempotent key and its move, the scan of the directory, and one whole poll.
import RustCamel.File.Producer

namespace camel_file

open FileTree UnixPath Prog

/-! ## Filters -/

/-- The compiled filters of an endpoint. A regular expression or a list of Ant patterns is the test
that it makes. -/
structure CompiledFilters where
  include_re : Option (Text → Bool) := none
  exclude_re : Option (Text → Bool) := none
  ant_include_patterns : Option (Text → Bool) := none
  ant_exclude_patterns : Option (Text → Bool) := none
  include_exts : Option (List Text) := none
  exclude_exts : Option (List Text) := none

def eq_ignore_ascii_case (a b : Text) : Bool := a.map Char.toLower = b.map Char.toLower

/-- The text behind the first dot. -/
def file_extension (filename : Text) : Option Text :=
  if '.' ∈ filename then some (filename.dropWhile (· ≠ '.')).tail else none

def has_extension (filename : Text) (exts : List Text) : Bool :=
  (file_extension filename).any fun e => exts.any fun x => eq_ignore_ascii_case x e

def done_path (file_path : Path) (pattern : Text) : Path :=
  file_path.with_file_name (resolve_done_file_name pattern (file_path.file_name.getD []))

def done_file_exists (fs : Fs) (file_path : Path) (pattern : Text) : Bool :=
  fs.exists_ (done_path file_path pattern)

def passes_done_file (fs : Fs) (file_path : Path) (file_name : Text) : Option Text → Bool
  | none => true
  | some pattern => done_file_exists fs file_path pattern && !is_done_marker file_name pattern

def relative_text (path base_path : Path) : Text :=
  ((path.strip_prefix base_path).getD path).to_text

section

variable (config : FileConfig)

/-- The filters that `poll_one_file` checks again. -/
def passes_name_filters (filters : CompiledFilters) (file_name : Text) : Bool :=
  config.file_name.all (file_name = ·) &&
    filters.include_re.all (· file_name) && filters.exclude_re.all (!· file_name)

def outside_move_dir (path base_path : Path) : Bool :=
  config.move_to.all fun move_dir => !path.starts_with (base_path.join (parse move_dir))

def pass_all_filters (fs : Fs) (path : Path) (file_name : Text) (base_path : Path)
    (config : FileConfig) (filters : CompiledFilters) : Bool :=
  passes_name_filters config filters file_name &&
    filters.ant_include_patterns.all (· (relative_text path base_path)) &&
    filters.ant_exclude_patterns.all (!· (relative_text path base_path)) &&
    filters.include_exts.all (has_extension file_name) &&
    filters.exclude_exts.all (!has_extension file_name ·) &&
    outside_move_dir config path base_path &&
    passes_done_file fs path file_name config.done_file_name

/-! ## Locks and keys -/

inductive FileReadLock where
  | None (path : Path)
  | InProcess (path : Path)
  | Rename (original locked : Path)

def FileReadLock.active_path : FileReadLock → Path
  | .None path | .InProcess path => path
  | .Rename _ locked => locked

def decimal (n : Nat) : Text := (toString n).toList

def build_idempotent_key (strategy : IdempotentKey) (active_path : Path) (file_name : Text)
    (metadata : Content) : Option Text :=
  match strategy with
  | .None => none
  | .FileName => some file_name
  | .FilePath => some active_path.to_text
  | .FileSize => some (decimal metadata.bytes.length)
  | .Digest => metadata.modified.map fun ts => active_path.to_text ++ [':'] ++ decimal ts

/-- What the polls of one consumer share. -/
structure Shared where
  seen : List Path
  in_process_locks : List Path
  idempotent_repo : List Text

/-- What a poll hands on for a file: what the body reads, and the headers by which it is named. -/
structure Exchange where
  body : Content
  camel_file_name : Text
  camel_file_name_only : Text
  camel_file_absolute_path : Text
  camel_file_length : Nat

/-! ## One file -/

variable (file_path : Path)

def lock_path : Path :=
  file_path.with_file_name (file_path.file_name.getD [] ++ ".camel-lock".toList)

/-- The locks without the one that the file held. -/
def unlock (lock : FileReadLock) (shared : Shared) : Shared :=
  match lock with
  | .InProcess path =>
    { shared with in_process_locks := shared.in_process_locks.filter (· ≠ path) }
  | .None _ | .Rename _ _ => shared

/-- Gives the lock back and leaves the file unread. -/
def release {α : Type} (lock : FileReadLock) (shared : Shared) :
    Prog Call Answer (Option α × Shared) :=
  match lock with
  | .Rename original locked =>
    .call (.rename locked original) fun _ => .done (none, unlock lock shared)
  | .None _ | .InProcess _ => .done (none, unlock lock shared)

def canonical_path (p : Place) : Path := ⟨.root :: p.map .name, false⟩

variable (base_path : Path)

/-- The checks before a move, and the directory for it. `false` when one of them fails. -/
def prepare_move : Prog Call Answer Bool :=
  match config.noop || config.delete, config.move_to with
  | false, some move_dir =>
    if (parse move_dir).is_absolute then .done false
    else
      .call (.canonicalize base_path) fun
        | .error _ => .done false
        | .ok canonical_base =>
          let target_dir := base_path.join (parse move_dir)
          let proceed (resolved : Path) : Prog Call Answer Bool :=
            if !resolved.starts_with (canonical_path canonical_base) then .done false
            else create_dir_all target_dir >>= fun
              | .ok _ => .done true
              | .error _ => .done false
          .call .look fun fs =>
            if fs.exists_ target_dir then
              .call (.canonicalize target_dir) fun
                | .error _ => .done false
                | .ok resolved => proceed (canonical_path resolved)
            else proceed ((canonical_path canonical_base).join (parse move_dir))
  | _, _ => .done true

/-- Deletes, moves or unlocks the file. An error is only logged. -/
def finalize_locked_file (lock : FileReadLock) (base_path : Path) (file_name : Text) :
    Prog Call Answer Unit :=
  let quietly (c : Call) : Prog Call Answer Unit := sys c >>= fun _ => .done ()
  if config.noop then
    match lock with
    | .Rename original locked => quietly (.rename locked original)
    | .None _ | .InProcess _ => .done ()
  else if config.delete then quietly (.remove_file lock.active_path)
  else
    match config.move_to with
    | some move_dir =>
      quietly (.rename lock.active_path
        ((base_path.join (parse move_dir)).join (parse file_name)))
    | none => .done ()

def remove_done_marker : Prog Call Answer Unit :=
  match config.noop, config.done_file_name with
  | false, some pattern =>
    if has_placeholder pattern then
      sys (.remove_file (done_path file_path pattern)) >>= fun _ => .done ()
    else .done ()
  | _, _ => .done ()

/-- What is done with the file before its exchange goes out. -/
def finish (lock : FileReadLock) (content : Content) (shared : Shared) :
    Prog Call Answer (Exchange × Shared) := do
  let file_name := file_path.file_name.getD []
  finalize_locked_file config lock base_path file_name
  remove_done_marker config file_path
  let exchange : Exchange :=
    { body := content
      camel_file_name := relative_text file_path base_path
      camel_file_name_only := file_name
      camel_file_absolute_path := file_path.to_text
      camel_file_length := content.bytes.length }
  return (exchange, unlock lock shared)

def emit (lock : FileReadLock) (content : Content) (shared : Shared) :
    Prog Call Answer (Option Exchange × Shared) :=
  let shared := if config.noop then { shared with seen := file_path :: shared.seen } else shared
  prepare_move config base_path >>= fun
    | false => release lock shared
    | true => finish config file_path base_path lock content shared >>= fun (exchange, shared) =>
      .done (some exchange, shared)

def read_locked (lock : FileReadLock) (shared : Shared) :
    Prog Call Answer (Option Exchange × Shared) :=
  .call (.open_read lock.active_path) fun opened =>
    .call .elapsed fun
      | true => release lock shared
      | false =>
        match opened with
        | .error _ => release lock shared
        | .ok content =>
          match build_idempotent_key config.idempotent_key lock.active_path
              (file_path.file_name.getD []) content with
          | none => emit config file_path base_path lock content shared
          | some key =>
            if key ∈ shared.idempotent_repo then release lock shared
            else emit config file_path base_path lock content
              { shared with idempotent_repo := key :: shared.idempotent_repo }

def lock_and_read (shared : Shared) : Prog Call Answer (Option Exchange × Shared) :=
  match config.read_lock_strategy with
  | .None => read_locked config file_path base_path (.None file_path) shared
  | .InProcess =>
    if file_path ∈ shared.in_process_locks then .done (none, shared)
    else read_locked config file_path base_path (.InProcess file_path)
      { shared with in_process_locks := file_path :: shared.in_process_locks }
  | .Rename =>
    .call (.rename file_path (lock_path file_path)) fun
      | .error _ => .done (none, shared)
      | .ok _ =>
        read_locked config file_path base_path (.Rename file_path (lock_path file_path)) shared

def poll_one_file (filters : CompiledFilters) (file_path base_path : Path) (shared : Shared) :
    Prog Call Answer (Option Exchange × Shared) :=
  if !passes_name_filters config filters (file_path.file_name.getD []) then .done (none, shared)
  else if !outside_move_dir config file_path base_path then .done (none, shared)
  else if config.noop && file_path ∈ shared.seen then .done (none, shared)
  else lock_and_read config file_path base_path shared

/-! ## The scan -/

structure Candidate where
  path : Path
  metadata : Content
  depth : Nat

/-- What the walk carries along. -/
structure Scan where
  visited : List Place
  candidates : List Candidate

def eager_max : Option Nat :=
  if config.eager_max_messages_per_poll && config.max_messages_per_poll > 0 then
    some config.max_messages_per_poll.toNat
  else none

end

section

variable (config : FileConfig) (filters : CompiledFilters) (base_path : Path) (seen : List Path)

/-- One regular file. `none` when the limit is reached. -/
def scan_file (fs : Fs) (path : Path) (metadata : Content) (depth : Nat) (scan : Scan) :
    Option Scan :=
  if (eager_max config).any (· ≤ scan.candidates.length) then none
  else if depth < config.min_depth then some scan
  else if !pass_all_filters fs path (path.file_name.getD []) base_path config filters then some scan
  else if config.noop && path ∈ seen then some scan
  else some { scan with candidates := scan.candidates ++ [⟨path, metadata, depth⟩] }

/-- The entries of one directory. The answer is whether the limit was reached. -/
def walk_entries (descend : Path → Scan → Prog Call Answer (Except Fault Bool × Scan)) (dir : Path)
    (depth : Nat) : List Text → Scan → Prog Call Answer (Except Fault Bool × Scan)
  | [], scan => .done (.ok false, scan)
  | name :: names, scan =>
    let path := dir.join (parse name)
    .call .look fun fs =>
      match fs.symlink_metadata path with
      | none => .done (.error .NotFound, scan)
      | some (.file metadata) =>
        match scan_file config filters base_path seen fs path metadata depth scan with
        | none => .done (.ok true, scan)
        | some scan => walk_entries descend dir depth names scan
      | some .dir =>
        if config.recursive then
          descend path scan >>= fun
            | (.ok false, scan) => walk_entries descend dir depth names scan
            | result => .done result
        else walk_entries descend dir depth names scan
      | some (.link _) => walk_entries descend dir depth names scan

/-- The walk down from a directory. `fuel` is more than the depth of the tree; a walk that needs
more ends like a path that is too long. -/
def walk : Nat → Nat → Path → Scan → Prog Call Answer (Except Fault Bool × Scan)
  | 0, _, _, scan => .done (.error .Loop, scan)
  | fuel + 1, depth, dir, scan =>
    .call (.canonicalize dir) fun
      | .error fault => .done (.error fault, scan)
      | .ok canonical_dir =>
        if canonical_dir ∈ scan.visited then .done (.ok false, scan)
        else
          let scan := { scan with visited := canonical_dir :: scan.visited }
          if config.max_depth < depth then .done (.ok false, scan)
          else
            .call (.read_dir dir) fun
              | .error fault => .done (.error fault, scan)
              | .ok names =>
                walk_entries config filters base_path seen (walk fuel (depth + 1)) dir depth names
                  scan

def scan_candidates (fuel : Nat) : Prog Call Answer (Except Fault Bool × Scan) :=
  walk config filters base_path seen fuel 1 base_path ⟨[], []⟩

end

/-! ## A whole poll -/

/-- The order of the candidates: by path, then by `sortBy`, then shuffled. -/
structure Arrangement where
  order : List Candidate → List Candidate
  perm : ∀ candidates, (order candidates).Perm candidates

variable (config : FileConfig)

def is_limited : Bool := !config.eager_max_messages_per_poll && config.max_messages_per_poll > 0

def apply_sort_and_limit (arrangement : Arrangement) (candidates : List Candidate) :
    List Candidate :=
  if is_limited config then
    (arrangement.order candidates).take config.max_messages_per_poll.toNat
  else arrangement.order candidates

/-- What a poll has emitted, oldest first, and what it shares with the next one. -/
structure Poll where
  emitted : List (Path × Exchange)
  shared : Shared

/-- The candidates one after the other. `accepts` says of each exchange by its number whether the
route takes it. -/
def poll_candidates (config : FileConfig) (filters : CompiledFilters) (base_path : Path)
    (accepts : Nat → Bool) :
    List Candidate → Poll → Prog Call Answer (Except CamelError Unit × Poll)
  | [], poll => .done (.ok (), poll)
  | candidate :: candidates, poll =>
    poll_one_file config filters candidate.path base_path poll.shared >>= fun
      | (none, shared) =>
        poll_candidates config filters base_path accepts candidates { poll with shared }
      | (some exchange, shared) =>
        let sent : Poll := ⟨poll.emitted ++ [(candidate.path, exchange)], shared⟩
        if accepts poll.emitted.length then
          poll_candidates config filters base_path accepts candidates sent
        else .done (.error .ChannelClosed, sent)

/-- Removes a done marker that all files of a directory share. -/
def remove_shared_markers (base_path : Path) (pattern : Text) : List Path → Prog Call Answer Unit
  | [] => .done ()
  | processed :: paths =>
    .call (.remove_file ((processed.parent.getD base_path).join (parse pattern))) fun _ =>
      remove_shared_markers base_path pattern paths

/-- The shared markers go when every candidate was sent and none was left out. -/
def clean_up (base_path : Path) (was_limited : Bool) (candidate_count : Nat)
    (processed : List Path) : Prog Call Answer Unit :=
  match config.noop, config.done_file_name with
  | false, some pattern =>
    if !has_placeholder pattern && !was_limited && processed.length = candidate_count &&
        candidate_count > 0 then
      remove_shared_markers base_path pattern processed
    else .done ()
  | _, _ => .done ()

def poll_directory (fuel : Nat) (config : FileConfig) (filters : CompiledFilters)
    (arrangement : Arrangement) (accepts : Nat → Bool) (shared : Shared) :
    Prog Call Answer (Except CamelError Unit × Poll) :=
  let base_path := parse config.directory
  scan_candidates config filters base_path shared.seen fuel >>= fun
    | (.error fault, _) => .done (.error (.Io fault), ⟨[], shared⟩)
    | (.ok hit_limit, scan) =>
      let was_limited := hit_limit ||
        is_limited config && scan.candidates.length > config.max_messages_per_poll
      let candidates := apply_sort_and_limit config arrangement scan.candidates
      poll_candidates config filters base_path accepts candidates ⟨[], shared⟩ >>= fun
        | (.error err, poll) => .done (.error err, poll)
        | (.ok _, poll) =>
          clean_up config base_path was_limited candidates.length (poll.emitted.map Prod.fst) >>=
            fun _ => .done (.ok (), poll)

end camel_file
