import EverscaleLedger.Library.Runs
import EverscaleLedger.Source.Handlers

/-! `apdu/dispatcher.c` and the main loop: the device as a machine that takes
commands and answers in any order. -/
namespace EverscaleLedger.Source

open Library (Run RunWithin)

def claByte : Nat := 0xE0

inductive Ins where
  | getAppConfiguration
  | getPublicKey
  | sign
  | getAddress
  | signTransaction
deriving DecidableEq

def Ins.ofByte (byte : UInt8) : Option Ins :=
  match byte.toNat with
  | 1 => some .getAppConfiguration
  | 2 => some .getPublicKey
  | 3 => some .sign
  | 4 => some .getAddress
  | 5 => some .signTransaction
  | _ => none

/-- A parsed command. `lc` is the length of the data, and the data pointer is
null exactly when that is zero. -/
structure Command where
  cla : UInt8
  ins : UInt8
  p1 : UInt8
  p2 : UInt8
  data : List UInt8
  lc_lt : data.length < 256

/-- What the dispatcher makes of a command: a handler to call, or an error that
is sent at once. -/
inductive Request where
  | getAppConfiguration
  | getPublicKey (cdata : List UInt8) (display : Bool)
  | getAddress (cdata : List UInt8) (display : Bool)
  | sign (cdata : List UInt8)
  | signTransaction (cdata : List UInt8) (isFirstChunk more : Bool)
  | refused (error : Err)
deriving DecidableEq

def p2Extend : Nat := 0x01
def p2More : Nat := 0x02

/-- The checks of `apdu_dispatcher`. -/
def Command.request (cmd : Command) : Request :=
  let p1 := cmd.p1.toNat
  let p2 := cmd.p2.toNat
  let lc := cmd.data.length
  if cmd.cla.toNat ≠ claByte then .refused .claNotSupported
  else match Ins.ofByte cmd.ins with
  | some .getAppConfiguration =>
      if p1 ≠ 0 ∨ p2 ≠ 0 then .refused .wrongP1P2
      else if lc ≠ 0 then .refused .wrongDataLength
      else .getAppConfiguration
  | some .getPublicKey =>
      if p1 > 1 ∨ p2 > 0 then .refused .wrongP1P2
      else if lc ≠ 4 then .refused .wrongDataLength
      else if lc = 0 then .refused .noData
      else .getPublicKey cmd.data (p1 ≠ 0)
  | some .getAddress =>
      if p1 > 1 ∨ p2 > 0 then .refused .wrongP1P2
      else if lc ≠ 5 then .refused .wrongDataLength
      else if lc = 0 then .refused .noData
      else .getAddress cmd.data (p1 ≠ 0)
  | some .sign =>
      if p1 ≠ 1 ∨ p2 > 0 then .refused .wrongP1P2
      else if lc = 0 then .refused .wrongDataLength
      else .sign cmd.data
  | some .signTransaction =>
      if p1 ≠ 1 ∨ p2 > 3 then .refused .wrongP1P2
      else if lc = 0 then .refused .noData
      else .signTransaction cmd.data (p2 &&& p2Extend = 0) (p2 &&& p2More ≠ 0)
  | none => .refused .insNotSupported

def handle (sdk : Sdk) (locals : Locals) (request : Request) (device : Device) :
    Outcome (Device × Option Reply) :=
  match request with
  | .getAppConfiguration => handleGetAppConfiguration device
  | .getPublicKey cdata display => handleGetPublicKey sdk cdata display device
  | .getAddress cdata display => handleGetAddress sdk cdata display device
  | .sign cdata => handleSign sdk cdata device
  | .signTransaction cdata isFirstChunk more =>
      handleSignTransaction sdk locals cdata isFirstChunk more device
  | .refused error => pure (device, some (ioSendSw error.statusWord))

/-- A command comes with what the uninitialised locals of its handler hold. -/
inductive Event where
  | command (cmd : Command) (locals : Locals)
  | answer (choice : Bool)

/-- One round of the main loop. An exception is answered and ends `app_main`;
the next command finds the application started anew. A fault has no next state.
Only a waiting screen can be answered, and the answer removes it. -/
def step (sdk : Sdk) (device : Device) : Event → Option (Device × Effect)
  | .command cmd locals =>
      match handle sdk locals cmd.request device with
      | .ok (device, reply) => some (device, ⟨reply, none⟩)
      | .error (.thrown error) => some (.initial, ⟨some (ioSendSw error.statusWord), none⟩)
      | .error .fault => none
  | .answer choice =>
      match device.screen with
      | none => none
      | some screen =>
          if choice then
            let (device, effect) := approve sdk screen.callback device
            some ({ device with screen := none }, effect)
          else some ({ device with screen := none },
            ⟨some (ioSendSw Err.userRejected.statusWord), none⟩)

abbrev DeviceRun (sdk : Sdk) : List Event → Device → Prop := Run (step sdk) Device.initial

abbrev DeviceRunWithin (sdk : Sdk) (allowed : Device → Event → Prop) :
    List Event → Device → Prop := RunWithin (step sdk) allowed Device.initial

end EverscaleLedger.Source
