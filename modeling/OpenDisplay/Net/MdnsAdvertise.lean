import OpenDisplay.Lib.Text
import OpenDisplay.Lib.Transition

/-! # The mDNS advertiser

`MdnsAdvertiser` keeps one announcement, which `Start` builds by appending to it, a socket and a worker
thread. What the system answers in a `Start` is an `Outcome`; the calls of one object and the end of
its worker are the `Call`s, and `step` is the effect of each. -/

namespace OpenDisplay.Net.MdnsAdvertise

open OpenDisplay.Lib.Text OpenDisplay.Lib.Transition

/-! ## The packet -/

def kServiceType : List UInt8 := ascii "_opensidecar._tcp"

def kServiceDomain : List UInt8 := ascii "_opensidecar._tcp.local"

def kTypeA : UInt16 := 1

def kTypePtr : UInt16 := 12

def kTypeTxt : UInt16 := 16

def kTypeSrv : UInt16 := 33

/-- The class IN with the cache-flush bit. -/
def kClassCacheFlush : UInt16 := 0x8001

/-- `PutU16`. -/
def putU16 (out : List UInt8) (v : UInt16) : List UInt8 :=
  out ++ [(v >>> 8).toUInt8, (v &&& 0xFF).toUInt8]

/-- The loop of `EncodeName` over the rest of the name: the label up to the next dot, or the last one,
behind its length narrowed to a byte. -/
def encodeLabels (name : List UInt8) : List UInt8 :=
  match _hdot : name.dropWhile (· != 46) with
  | [] => UInt8.ofNat name.length :: name
  | _ :: rest =>
    UInt8.ofNat (name.takeWhile (· != 46)).length :: name.takeWhile (· != 46) ++ encodeLabels rest
termination_by name.length
decreasing_by
  have hle := (List.dropWhile_sublist (l := name) (· != 46)).length_le
  rw [_hdot, List.length_cons] at hle
  omega

/-- `EncodeName`. -/
def encodeName (name : List UInt8) : List UInt8 := encodeLabels name ++ [0]

/-- `AppendRecord`. -/
def appendRecord (out name : List UInt8) (type : UInt16) (rdata : List UInt8) (ttl : UInt32)
    (flush : Bool) : List UInt8 :=
  let out := out ++ encodeName name
  let out := putU16 out type
  let out := putU16 out (if flush then kClassCacheFlush else 0x0001)
  let out := putU16 out (ttl >>> 16).toUInt16
  let out := putU16 out (ttl &&& 0xFFFF).toUInt16
  let out := putU16 out (UInt16.ofNat rdata.length)
  out ++ rdata

/-- `in_addr`: the four bytes in network order. -/
structure InAddr where
  bytes : List UInt8
  ok : bytes.length = 4

/-- `MdnsAdvertiser::Config`. -/
structure Config where
  instanceName : List UInt8
  id : List UInt8
  pv : Int32
  port : UInt16

/-- `fullInstance`. -/
def fullInstance (instanceName : List UInt8) : List UInt8 :=
  instanceName ++ ascii "." ++ kServiceType ++ ascii ".local"

/-- The name without its spaces, or `opendisplay`, in the domain `local`. -/
def resolveHost (instanceName : List UInt8) : List UInt8 :=
  (if instanceName.filter (· != 32) = [] then ascii "opendisplay"
    else instanceName.filter (· != 32)) ++ ascii ".local"

/-- `srv`. -/
def srvData (cfg : Config) (hostName : List UInt8) : List UInt8 :=
  putU16 (putU16 (putU16 [] 0) 0) cfg.port ++ encodeName hostName

/-- `addTxt`. -/
def addTxt (txt s : List UInt8) : List UInt8 := txt ++ UInt8.ofNat s.length :: s

/-- `txt`. -/
def txtData (cfg : Config) : List UInt8 :=
  addTxt (addTxt [] (ascii "id=" ++ cfg.id)) (ascii "pv=" ++ decimalInt cfg.pv.toInt)

/-- The header and the records PTR, SRV and TXT, appended to `pkt`. -/
def appendService (pkt : List UInt8) (cfg : Config) (instanceName hostName : List UInt8) :
    List UInt8 :=
  let pkt := [0, 0x8400, 0, 4, 0, 0].foldl putU16 pkt
  let pkt := appendRecord pkt kServiceDomain kTypePtr (encodeName (fullInstance instanceName)) 4500
    false
  let pkt := appendRecord pkt (fullInstance instanceName) kTypeSrv (srvData cfg hostName) 120 true
  appendRecord pkt (fullInstance instanceName) kTypeTxt (txtData cfg) 120 true

/-- The record A, appended to `pkt`. -/
def appendAddress (pkt hostName : List UInt8) (addr : InAddr) : List UInt8 :=
  appendRecord pkt hostName kTypeA addr.bytes 120 true

/-! ## The advertiser -/

/-- `thread_`: not joinable, in `ThreadMain`, or behind it and not yet joined. -/
inductive Worker
  | none
  | running
  | finished
  deriving DecidableEq

structure MdnsAdvertiser where
  cfg : Config
  instanceName : List UInt8
  hostName : List UInt8
  ipv4 : List UInt8
  announcement : List UInt8
  /-- `sock_` is a socket. -/
  sock : Bool
  canReceive : Bool
  running : Bool
  thread : Worker

/-- A constructed advertiser. -/
def fresh : MdnsAdvertiser where
  cfg := ⟨[], [], 3, 9000⟩
  instanceName := []
  hostName := []
  ipv4 := []
  announcement := []
  sock := false
  canReceive := false
  running := false
  thread := .none

/-- What the system answers in a `Start`. -/
structure Outcome where
  /-- The texts of the addresses of the adapters that are up. -/
  addresses : List (List UInt8)
  /-- The DNS host name and the NetBIOS name, empty where the call fails. -/
  computerNames : List (List UInt8)
  /-- `inet_pton` of the address. -/
  inetPton : Option InAddr
  socket : Bool
  bind : Bool

/-- `ComputerName`. -/
def computerName (names : List (List UInt8)) : List UInt8 := (names.find? (· ≠ [])).getD []

/-- `FirstLanIPv4`. -/
def firstLanIPv4 (all : List (List UInt8)) : List UInt8 :=
  (all.find? fun ip => ¬ascii "169.254." <+: ip).getD (all.headD [])

/-- `instanceName_` from the configuration, the computer, or the default. -/
def resolveName (cfg : Config) (o : Outcome) : List UInt8 :=
  if cfg.instanceName ≠ [] then cfg.instanceName
  else if computerName o.computerNames ≠ [] then computerName o.computerNames
  else ascii "OpenDisplay"

namespace MdnsAdvertiser

variable (a : MdnsAdvertiser) (cfg : Config) (o : Outcome)

/-- `Start` from the names to the TXT record. -/
def describe : MdnsAdvertiser :=
  { a with
    cfg := cfg
    ipv4 := firstLanIPv4 o.addresses
    instanceName := resolveName cfg o
    hostName := resolveHost (resolveName cfg o)
    announcement :=
      appendService a.announcement cfg (resolveName cfg o) (resolveHost (resolveName cfg o))
    running := true }

/-- `Start` from the A record on. Its self-test, in front of the worker, sends the packet once and changes
nothing here; `MdnsResponder` has it. -/
def advertise (addr : InAddr) : MdnsAdvertiser × Bool :=
  if o.socket then
    ({ a with
      announcement := appendAddress a.announcement a.hostName addr
      sock := true
      canReceive := o.bind
      thread := .running }, true)
  else
    ({ a with
      announcement := appendAddress a.announcement a.hostName addr
      sock := false
      running := false }, false)

/-- `Start`. -/
def start : MdnsAdvertiser × Bool :=
  if a.running then (a, true)
  else if firstLanIPv4 o.addresses = [] then
    ({ a with running := true, cfg := cfg, ipv4 := [] }, false)
  else
    match o.inetPton with
    | none => ({ a.describe cfg o with running := false }, false)
    | some addr => (a.describe cfg o).advertise o addr

theorem start_cases :
    (a.running = true ∧ a.start cfg o = (a, true)) ∨
    (a.running = false ∧ firstLanIPv4 o.addresses = [] ∧
      a.start cfg o = ({ a with running := true, cfg := cfg, ipv4 := [] }, false)) ∨
    (a.running = false ∧ firstLanIPv4 o.addresses ≠ [] ∧ o.inetPton = none ∧
      a.start cfg o = ({ a.describe cfg o with running := false }, false)) ∨
    ∃ addr, a.running = false ∧ firstLanIPv4 o.addresses ≠ [] ∧ o.inetPton = some addr ∧
      a.start cfg o = (a.describe cfg o).advertise o addr := by
  unfold start
  cases hrunning : a.running with
  | true => simp
  | false =>
    by_cases hip : firstLanIPv4 o.addresses = []
    · simp [hip]
    · cases haddr : o.inetPton with
      | none => simp [hip]
      | some addr => simp [hip]

/-- `Stop`; it returns when the worker has ended. -/
def stop : MdnsAdvertiser :=
  if a.running then { a with running := false, thread := .none, sock := false }
  else { a with sock := false }

end MdnsAdvertiser

inductive Call
  | start (cfg : Config) (o : Outcome)
  | stop
  /-- `select` fails in the worker, which leaves its loop. -/
  | selectFails

def step (a : MdnsAdvertiser) : Call → Option MdnsAdvertiser
  | .start cfg o => some (a.start cfg o).1
  | .stop => some a.stop
  | .selectFails => when (a.thread = .running ∧ a.canReceive = true) { a with thread := .finished }

end OpenDisplay.Net.MdnsAdvertise
