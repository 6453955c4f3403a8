/-!
# Refusals and failures

An operation ends with a result, with a refusal that names its cause, or
with an address computation that does not fit 64 bits. Collaborators answer
in the vocabulary of `SystemError`, and every refusal has a place in it.
-/

set_option autoImplicit false

namespace Gpio

inductive SystemError where
  | addrInUse | alreadyConnected | alreadyExists | argumentListTooLong
  | badAddress | badFileDescriptor | badState | brokenPipe
  | connectionRefused | connectionReset | crossesDevices | directoryNotEmpty
  | filesystemLoop | illegalBytes | inProgress | interrupted
  | invalidData | invalidExecutable | invalidInput | io
  | isADirectory | nameTooLong | noMemory | noSuchDevice
  | noSuchProcess | notADirectory | notASocket | notATty
  | notConnected | notFound | operationNotPermitted | operationNotSupported
  | outOfRange | permissionDenied | readOnlyFilesystem | resourceBusy
  | storageFull | timedOut | tooManyOpenFiles | unexpectedEof
  | unsupported | wouldBlock | writeZero
  deriving DecidableEq, Repr

namespace SystemError

def name : SystemError → String
  | addrInUse => "AddrInUse"
  | alreadyConnected => "AlreadyConnected"
  | alreadyExists => "AlreadyExists"
  | argumentListTooLong => "ArgumentListTooLong"
  | badAddress => "BadAddress"
  | badFileDescriptor => "BadFileDescriptor"
  | badState => "BadState"
  | brokenPipe => "BrokenPipe"
  | connectionRefused => "ConnectionRefused"
  | connectionReset => "ConnectionReset"
  | crossesDevices => "CrossesDevices"
  | directoryNotEmpty => "DirectoryNotEmpty"
  | filesystemLoop => "FilesystemLoop"
  | illegalBytes => "IllegalBytes"
  | inProgress => "InProgress"
  | interrupted => "Interrupted"
  | invalidData => "InvalidData"
  | invalidExecutable => "InvalidExecutable"
  | invalidInput => "InvalidInput"
  | io => "Io"
  | isADirectory => "IsADirectory"
  | nameTooLong => "NameTooLong"
  | noMemory => "NoMemory"
  | noSuchDevice => "NoSuchDevice"
  | noSuchProcess => "NoSuchProcess"
  | notADirectory => "NotADirectory"
  | notASocket => "NotASocket"
  | notATty => "NotATty"
  | notConnected => "NotConnected"
  | notFound => "NotFound"
  | operationNotPermitted => "OperationNotPermitted"
  | operationNotSupported => "OperationNotSupported"
  | outOfRange => "OutOfRange"
  | permissionDenied => "PermissionDenied"
  | readOnlyFilesystem => "ReadOnlyFilesystem"
  | resourceBusy => "ResourceBusy"
  | storageFull => "StorageFull"
  | timedOut => "TimedOut"
  | tooManyOpenFiles => "TooManyOpenFiles"
  | unexpectedEof => "UnexpectedEof"
  | unsupported => "Unsupported"
  | wouldBlock => "WouldBlock"
  | writeZero => "WriteZero"

def all : List SystemError := [
  addrInUse, alreadyConnected, alreadyExists, argumentListTooLong,
  badAddress, badFileDescriptor, badState, brokenPipe,
  connectionRefused, connectionReset, crossesDevices, directoryNotEmpty,
  filesystemLoop, illegalBytes, inProgress, interrupted,
  invalidData, invalidExecutable, invalidInput, io,
  isADirectory, nameTooLong, noMemory, noSuchDevice,
  noSuchProcess, notADirectory, notASocket, notATty,
  notConnected, notFound, operationNotPermitted, operationNotSupported,
  outOfRange, permissionDenied, readOnlyFilesystem, resourceBusy,
  storageFull, timedOut, tooManyOpenFiles, unexpectedEof,
  unsupported, wouldBlock, writeZero]

def ofName? (s : String) : Option SystemError :=
  all.find? fun e => e.name == s

end SystemError

inductive Refusal where
  /-- No such pin, or a register outside its bank. -/
  | invalidLine
  /-- The pin exists but its security word withholds a grant. -/
  | inaccessible
  /-- A claim on a line this domain may not own. -/
  | busy
  | unsupportedTrigger
  | invalidArgument
  | noWakeSource
  /-- The platform described too few banks or interrupts, or the host could not map a line. -/
  | resourceMissing
  /-- Pin control or the wake controller said no. -/
  | collaborator (e : SystemError)
  deriving DecidableEq, Repr

namespace Refusal

def name : Refusal → String
  | invalidLine => "InvalidLine"
  | inaccessible => "Inaccessible"
  | busy => "Busy"
  | unsupportedTrigger => "UnsupportedTriggerType"
  | invalidArgument => "InvalidArgument"
  | noWakeSource => "NoWakeSource"
  | resourceMissing => "ResourceMissing"
  | collaborator _ => "CollaboratorFailure"

def detail : Refusal → String
  | collaborator e => "CollaboratorFailure(" ++ e.name ++ ")"
  | r => r.name

def message : Refusal → String
  | invalidLine => "line does not exist"
  | inaccessible => "line is owned by another access domain"
  | busy => "line is busy"
  | unsupportedTrigger => "unsupported interrupt trigger type"
  | invalidArgument => "argument out of range"
  | noWakeSource => "line has no wake source"
  | resourceMissing => "platform resource missing"
  | collaborator e => "collaborator failed: " ++ e.name

def toSystemError : Refusal → SystemError
  | invalidLine | invalidArgument => .invalidInput
  | inaccessible => .permissionDenied
  | busy => .resourceBusy
  | unsupportedTrigger => .unsupported
  | noWakeSource | resourceMissing => .notFound
  | collaborator e => e

end Refusal

inductive Overflow where
  | add
  | mul
  deriving DecidableEq, Repr

inductive Failure where
  | refused (r : Refusal)
  | overflow (o : Overflow)
  deriving DecidableEq, Repr

abbrev Checked := Except Failure

namespace Checked

def refuse {α : Type} (r : Refusal) : Checked α := .error (.refused r)

/-- Turns a refusal into a value; an overflow still ends the computation. -/
def settle {α : Type} : Checked α → Checked (Except Refusal α)
  | .ok a => .ok (.ok a)
  | .error (.refused r) => .ok (.error r)
  | .error (.overflow o) => .error (.overflow o)

def optional {α : Type} (x : Checked α) : Checked (Option α) :=
  x.settle.map Except.toOption

end Checked

def addressLimit : Nat := 0x10000000000000000

def checkedAdd (a b : Nat) : Checked Nat :=
  if a + b < addressLimit then .ok (a + b) else .error (.overflow .add)

def checkedMul (a b : Nat) : Checked Nat :=
  if a * b < addressLimit then .ok (a * b) else .error (.overflow .mul)

theorem checkedAdd_of_lt {a b : Nat} (h : a + b < addressLimit) : checkedAdd a b = .ok (a + b) :=
  if_pos h

end Gpio
