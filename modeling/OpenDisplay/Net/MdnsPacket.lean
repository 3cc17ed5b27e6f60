import Mathlib.Data.List.TakeWhile
import OpenDisplay.Lib.DnsMessage
import OpenDisplay.Net.MdnsAdvertise

/-! # What the announcement says

The first `Start` of an advertiser builds a DNS message that a parser reads as the four records of the
service, if the instance name is one label (`announcement_decodes`). An instance name is written as one
label exactly if it has no dot and at most 63 bytes (`instance_label_iff`). -/

namespace OpenDisplay.Net.MdnsPacket

open OpenDisplay.Lib.DnsMessage (Name NameFits RData Record Message nameWire octets readMessage readRecord
  readMessage_wire readRecord_wire rdata_of_readRecord_ptr stringWire)
open OpenDisplay.Lib OpenDisplay.Lib.Text OpenDisplay.Net.MdnsAdvertise

/-! ## Names -/

/-- The labels of `_opensidecar._tcp.local`. -/
def serviceLabels : List (List UInt8) := [ascii "_opensidecar", ascii "_tcp", ascii "local"]

variable {label name out rdata : List UInt8} {a : MdnsAdvertiser} {cfg : Config} {o : Outcome}

theorem ne_dot (h : 46 ∉ label) : ∀ b ∈ label, (b != 46) = true := by
  intro b hb
  simpa using fun hdot : b = 46 => h (hdot ▸ hb)

/-- A label in front of a dot. -/
theorem encodeLabels_append (h : 46 ∉ label) (s : List UInt8) :
    encodeLabels (label ++ 46 :: s) = stringWire label ++ encodeLabels s := by
  have htake : (label ++ 46 :: s).takeWhile (· != 46) = label := by
    rw [List.takeWhile_append_of_pos (ne_dot h)]
    simp
  have hdrop : (label ++ 46 :: s).dropWhile (· != 46) = 46 :: s := by
    rw [List.dropWhile_append_of_pos (ne_dot h)]
    simp
  rw [encodeLabels]
  split
  · next hnil =>
    rw [hdrop] at hnil
    cases hnil
  · next hcons =>
    rw [hdrop] at hcons
    cases hcons
    rw [htake]
    rfl

theorem encodeLabels_label (h : 46 ∉ label) : encodeLabels label = stringWire label := by
  have hdrop : label.dropWhile (· != 46) = [] := List.dropWhile_eq_nil_iff.2 (ne_dot h)
  rw [encodeLabels]
  split
  · rfl
  · next hcons =>
    rw [hdrop] at hcons
    cases hcons

theorem length_encodeLabels (name : List UInt8) :
    (encodeLabels name).length = name.length + 1 := by
  fun_induction encodeLabels name with
  | case1 name hdrop => rfl
  | case2 name b rest hdrop ih =>
    have hsplit := congrArg List.length
      (List.takeWhile_append_dropWhile (p := (· != 46)) (l := name))
    rw [hdrop, List.length_append, List.length_cons] at hsplit
    rw [List.length_append, List.length_cons, ih]
    omega

theorem encodeName_append (h : 46 ∉ label) (s : List UInt8) :
    encodeName (label ++ 46 :: s) = stringWire label ++ encodeName s := by
  unfold encodeName
  rw [encodeLabels_append h, List.append_assoc]

theorem encodeName_label (h : 46 ∉ label) : encodeName label = nameWire [label] := by
  unfold encodeName
  rw [encodeLabels_label h]
  simp [nameWire]

theorem nameWire_cons (label : List UInt8) (labels : List (List UInt8)) :
    nameWire (label :: labels) = stringWire label ++ nameWire labels := by
  simp [nameWire]

theorem fullInstance_eq (name : List UInt8) :
    fullInstance name = name ++ 46 :: kServiceDomain := by
  have hdomain : ascii "." ++ kServiceType ++ ascii ".local" = 46 :: kServiceDomain := rfl
  unfold fullInstance
  rw [List.append_assoc, List.append_assoc, ← List.append_assoc (ascii "."), hdomain]

theorem encodeName_service : encodeName kServiceDomain = nameWire serviceLabels := by
  decide +kernel

theorem encodeName_fullInstance (h : 46 ∉ name) :
    encodeName (fullInstance name) = nameWire (name :: serviceLabels) := by
  rw [fullInstance_eq, encodeName_append h, encodeName_service, nameWire_cons]

theorem encodeName_local (h : 46 ∉ name) :
    encodeName (name ++ ascii ".local") = nameWire [name, ascii "local"] := by
  have hlocal : ascii ".local" = 46 :: ascii "local" := rfl
  have hlabel : 46 ∉ ascii "local" := by simp [ascii]
  rw [hlocal, encodeName_append h, encodeName_label hlabel, nameWire_cons name]

/-! ## Records -/

theorem putU16_eq (out : List UInt8) (v : UInt16) :
    putU16 out v = out ++ DnsMessage.putU16 v := by
  have hv := v.toNat_lt
  have hhigh : (v >>> 8).toUInt8 = UInt8.ofNat (v.toNat / 256) := by
    refine UInt8.toNat_inj.1 ?_
    rw [UInt16.toNat_toUInt8, UInt16.toNat_shiftRight, Nat.shiftRight_eq_div_pow,
      UInt8.toNat_ofNat']
    rfl
  have hlow : (v &&& 0xFF).toUInt8 = UInt8.ofNat v.toNat := by
    refine UInt8.toNat_inj.1 ?_
    rw [UInt16.toNat_toUInt8, UInt16.toNat_and, UInt8.toNat_ofNat']
    have hmask : v.toNat &&& (0xFF : UInt16).toNat = v.toNat % 2 ^ 8 :=
      Nat.and_two_pow_sub_one_eq_mod v.toNat 8
    rw [hmask]
    omega
  unfold putU16 DnsMessage.putU16
  rw [hhigh, hlow]

theorem putU16_ttl (out : List UInt8) (ttl : UInt32) :
    putU16 (putU16 out (ttl >>> 16).toUInt16) (ttl &&& 0xFFFF).toUInt16 =
      out ++ DnsMessage.putU32 ttl := by
  have ht := ttl.toNat_lt
  have hhigh : (ttl >>> 16).toUInt16.toNat = ttl.toNat / 65536 := by
    rw [UInt32.toNat_toUInt16, UInt32.toNat_shiftRight, Nat.shiftRight_eq_div_pow]
    change ttl.toNat / 65536 % 65536 = _
    omega
  have hlow : (ttl &&& 0xFFFF).toUInt16.toNat = ttl.toNat % 65536 := by
    rw [UInt32.toNat_toUInt16, UInt32.toNat_and]
    have hmask : ttl.toNat &&& (0xFFFF : UInt32).toNat = ttl.toNat % 2 ^ 16 :=
      Nat.and_two_pow_sub_one_eq_mod ttl.toNat 16
    rw [hmask]
    omega
  have hbyte : ∀ m n : ℕ, m % 256 = n % 256 → UInt8.ofNat m = UInt8.ofNat n := by
    intro m n h
    refine UInt8.toNat_inj.1 ?_
    rwa [UInt8.toNat_ofNat', UInt8.toNat_ofNat']
  rw [putU16_eq, putU16_eq, List.append_assoc]
  unfold DnsMessage.putU16 DnsMessage.putU32
  rw [hhigh, hlow]
  congr 1
  simp only [List.cons_append, List.nil_append, List.cons.injEq, and_true]
  exact ⟨hbyte _ _ (by omega), trivial, hbyte _ _ (by omega), hbyte _ _ (by omega)⟩

/-- `AppendRecord` writes a record. -/
theorem appendRecord_eq {labels : List (List UInt8)} {data : RData}
    (hname : encodeName name = nameWire labels) (hdata : rdata = data.wire) (out : List UInt8)
    (type : UInt16) (ttl : UInt32) (flush : Bool) :
    appendRecord out name type rdata ttl flush =
      out ++ Record.wire ⟨labels, type, if flush then kClassCacheFlush else 0x0001, ttl, data⟩ := by
  unfold appendRecord Record.wire
  dsimp only
  rw [putU16_ttl, putU16_eq, putU16_eq, putU16_eq, hname, hdata]
  simp

/-! ## The message of a name that is one label -/

/-- The label of the host. -/
def hostLabel (instanceName : List UInt8) : List UInt8 :=
  if instanceName.filter (· != 32) = [] then ascii "opendisplay" else instanceName.filter (· != 32)

/-- The strings of the TXT record. -/
def txtStrings (cfg : Config) : List (List UInt8) :=
  [ascii "id=" ++ cfg.id, ascii "pv=" ++ decimalInt cfg.pv.toInt]

/-- The four records of the service. -/
def serviceRecords (cfg : Config) (instanceName : List UInt8) (addr : InAddr) : List Record :=
  [⟨serviceLabels, 12, 1, 4500, .ptr (instanceName :: serviceLabels)⟩,
    ⟨instanceName :: serviceLabels, 33, 0x8001, 120,
      .srv 0 0 cfg.port [hostLabel instanceName, ascii "local"]⟩,
    ⟨instanceName :: serviceLabels, 16, 0x8001, 120, .txt (txtStrings cfg)⟩,
    ⟨[hostLabel instanceName, ascii "local"], 1, 0x8001, 120, .a addr.bytes⟩]

/-- The response that announces them. -/
def serviceMessage (cfg : Config) (instanceName : List UInt8) (addr : InAddr) : Message where
  id := 0
  flags := 0x8400
  questions := []
  answers := serviceRecords cfg instanceName addr
  authority := []
  additional := []

theorem dot_notMem_hostLabel (h : 46 ∉ name) : 46 ∉ hostLabel name := by
  unfold hostLabel
  split
  · simp [ascii]
  · exact fun hdot => h (List.mem_of_mem_filter hdot)

theorem length_hostLabel (h : name.length ≤ 63) :
    1 ≤ (hostLabel name).length ∧ (hostLabel name).length ≤ 63 := by
  unfold hostLabel
  split
  · simp [ascii]
  · next hne =>
    have hle := List.length_filter_le (· != 32) name
    exact ⟨List.length_pos_iff.2 hne, hle.trans h⟩

theorem encodeName_resolveHost (h : 46 ∉ name) :
    encodeName (resolveHost name) = nameWire [hostLabel name, ascii "local"] :=
  encodeName_local (dot_notMem_hostLabel h)

theorem srvData_eq (h : 46 ∉ name) (cfg : Config) :
    srvData cfg (resolveHost name) =
      (RData.srv 0 0 cfg.port [hostLabel name, ascii "local"]).wire := by
  unfold srvData RData.wire
  rw [putU16_eq, putU16_eq, putU16_eq, encodeName_resolveHost h]
  simp

theorem txtData_eq (cfg : Config) : txtData cfg = (RData.txt (txtStrings cfg)).wire := by
  simp [txtData, addTxt, txtStrings, RData.wire, stringWire]

theorem announcement_eq (h : 46 ∉ name) (cfg : Config) (addr : InAddr) :
    appendAddress (appendService [] cfg name (resolveHost name)) (resolveHost name) addr =
      (serviceMessage cfg name addr).wire := by
  have hname := encodeName_fullInstance h
  have hhost := encodeName_resolveHost h
  have hptr : encodeName (fullInstance name) = (RData.ptr (name :: serviceLabels)).wire := hname
  have ha : addr.bytes = (RData.a addr.bytes).wire := rfl
  unfold appendAddress appendService
  dsimp only
  rw [appendRecord_eq hhost ha, appendRecord_eq hname (txtData_eq cfg),
    appendRecord_eq hname (srvData_eq h cfg), appendRecord_eq encodeName_service hptr]
  simp only [List.foldl_cons, List.foldl_nil, putU16_eq]
  simp [Message.wire, serviceMessage, serviceRecords, kTypeA, kTypePtr, kTypeSrv, kTypeTxt,
    kClassCacheFlush]

/-! ### It fits -/

theorem nameFits_instance (hpos : name ≠ []) (hlen : name.length ≤ 63) :
    NameFits (name :: serviceLabels) where
  labels := by
    intro label hlabel
    rcases List.mem_cons.1 hlabel with rfl | hlabel
    · exact ⟨List.length_pos_iff.2 hpos, hlen⟩
    · have hservice : ∀ l ∈ serviceLabels, 1 ≤ l.length ∧ l.length ≤ 63 := by decide
      exact hservice label hlabel
  octets := by
    have hservice : octets serviceLabels = 25 := rfl
    rw [octets, hservice]
    omega

theorem nameFits_host (hlen : name.length ≤ 63) : NameFits [hostLabel name, ascii "local"] where
  labels := by
    intro label hlabel
    rcases List.mem_cons.1 hlabel with rfl | hlabel
    · exact length_hostLabel hlen
    · obtain rfl := List.mem_singleton.1 hlabel
      decide
  octets := by
    have hlocal : (ascii "local").length = 5 := rfl
    have hhost := (length_hostLabel hlen).2
    simp only [octets]
    omega

theorem nameFits_service : NameFits serviceLabels := ⟨by decide, by decide⟩

theorem txtStrings_short (hid : cfg.id.length ≤ 252) : ∀ s ∈ txtStrings cfg, s.length < 256 := by
  have hpv := length_decimalInt_le cfg.pv
  have hidText : (ascii "id=").length = 3 := rfl
  have hpvText : (ascii "pv=").length = 3 := rfl
  intro s hs
  simp only [txtStrings, List.mem_cons, List.not_mem_nil, or_false] at hs
  obtain rfl | rfl := hs
  · rw [List.length_append]
    omega
  · rw [List.length_append]
    omega

theorem ptrRecord_fits (hpos : name ≠ []) (hlen : name.length ≤ 63) :
    Record.Fits ⟨serviceLabels, 12, 1, 4500, .ptr (name :: serviceLabels)⟩ := by
  have hinstance := nameFits_instance hpos hlen
  refine ⟨nameFits_service, ⟨rfl, hinstance⟩, ?_⟩
  have hoctets := hinstance.octets
  dsimp only [RData.wire]
  rw [DnsMessage.length_nameWire]
  omega

theorem serviceRecords_fit (hpos : name ≠ []) (hlen : name.length ≤ 63)
    (hid : cfg.id.length ≤ 252) (addr : InAddr) :
    ∀ r ∈ serviceRecords cfg name addr, r.Fits := by
  have hinstance := nameFits_instance hpos hlen
  have hhost := nameFits_host hlen
  have htxt := txtStrings_short hid
  intro r hr
  simp only [serviceRecords, List.mem_cons, List.not_mem_nil, or_false] at hr
  obtain rfl | rfl | rfl | rfl := hr
  · exact ptrRecord_fits hpos hlen
  · refine ⟨hinstance, ⟨rfl, hhost⟩, ?_⟩
    have hoctets := hhost.octets
    simp only [RData.wire, DnsMessage.putU16, List.length_append, List.length_cons, List.length_nil,
      DnsMessage.length_nameWire]
    omega
  · refine ⟨hinstance, ⟨rfl, htxt⟩, ?_⟩
    have hfirst := htxt _ (List.mem_cons_self ..)
    have hsecond := htxt _ (List.mem_cons_of_mem _ (List.mem_cons_self ..))
    simp only [RData.wire, txtStrings, List.flatMap_cons, List.flatMap_nil, stringWire,
      List.length_append, List.length_cons, List.length_nil] at hfirst hsecond ⊢
    omega
  · refine ⟨hhost, ⟨rfl, addr.ok⟩, ?_⟩
    have hok := addr.ok
    dsimp only [RData.wire]
    omega

theorem serviceMessage_fits (hpos : name ≠ []) (hlen : name.length ≤ 63)
    (hid : cfg.id.length ≤ 252) (addr : InAddr) : (serviceMessage cfg name addr).Fits where
  questions := ⟨by simp [serviceMessage], by simp [serviceMessage]⟩
  answers := ⟨by simp [serviceMessage, serviceRecords], serviceRecords_fit hpos hlen hid addr⟩
  authority := ⟨by simp [serviceMessage], by simp [serviceMessage]⟩
  additional := ⟨by simp [serviceMessage], by simp [serviceMessage]⟩

/-! ## The first announcement -/

theorem resolveName_ne_nil (cfg : Config) (o : Outcome) : resolveName cfg o ≠ [] := by
  unfold resolveName
  split_ifs with hcfg hcomputer
  · exact hcfg
  · exact hcomputer
  · simp [ascii]

/-- A start that gets past the address lookup appends the message to the packet. -/
theorem announcement_start {addr : InAddr} (hstopped : a.running = false)
    (hip : firstLanIPv4 o.addresses ≠ []) (haddr : o.inetPton = some addr) :
    (a.start cfg o).1.announcement =
      appendAddress (appendService a.announcement cfg (resolveName cfg o)
        (resolveHost (resolveName cfg o))) (resolveHost (resolveName cfg o)) addr := by
  have hstart : a.start cfg o = (a.describe cfg o).advertise o addr := by
    unfold MdnsAdvertiser.start
    rw [if_neg (by simp [hstopped]), if_neg hip, haddr]
  rw [hstart]
  unfold MdnsAdvertiser.advertise
  split <;> rfl

/-- **What the first announcement says.** For an instance name without dots of at most 63 bytes and an
id of at most 252 bytes, the packet of the first `Start` is read as the message of the service. -/
theorem announcement_decodes (cfg : Config) (o : Outcome) (addr : InAddr)
    (hip : firstLanIPv4 o.addresses ≠ []) (haddr : o.inetPton = some addr)
    (hdot : 46 ∉ resolveName cfg o) (hlen : (resolveName cfg o).length ≤ 63)
    (hid : cfg.id.length ≤ 252) :
    readMessage (fresh.start cfg o).1.announcement =
      some (serviceMessage cfg (resolveName cfg o) addr) := by
  rw [announcement_start rfl hip haddr, show fresh.announcement = [] from rfl,
    announcement_eq hdot]
  exact readMessage_wire (serviceMessage_fits (resolveName_ne_nil cfg o) hlen hid addr)

/-- A name of three spaces. -/
def blankConfig : Config := ⟨ascii "   ", ascii "0123", 3, 9000⟩

def lanAddress : InAddr := ⟨[192, 168, 1, 20], rfl⟩

def lanOutcome : Outcome := ⟨[ascii "192.168.1.20"], [ascii "MYPC"], some lanAddress, true, true⟩

theorem announcement_decodes_blank :
    readMessage (fresh.start blankConfig lanOutcome).1.announcement =
      some (serviceMessage blankConfig (ascii "   ") lanAddress) :=
  announcement_decodes blankConfig lanOutcome lanAddress (by decide) rfl (by decide)
    (by decide) (by decide)

/-! ## Instance names that are one label -/

/-- The message of the service with the names `full` of the instance and `host` of the host. -/
def messageOf (cfg : Config) (full host : Name) (addr : InAddr) : Message where
  id := 0
  flags := 0x8400
  questions := []
  answers :=
    [⟨serviceLabels, 12, 1, 4500, .ptr full⟩, ⟨full, 33, 0x8001, 120, .srv 0 0 cfg.port host⟩,
      ⟨full, 16, 0x8001, 120, .txt (txtStrings cfg)⟩, ⟨host, 1, 0x8001, 120, .a addr.bytes⟩]
  authority := []
  additional := []

/-- The target of the record behind the header, if that is a PTR. -/
def ptrTarget (packet : List UInt8) : Option Name :=
  match readRecord packet (packet.drop 12) with
  | some (⟨_, _, _, _, .ptr target⟩, _) => some target
  | _ => none

/-- The packet of a `Start` is made of names whose labels have 1 to 63 bytes behind their lengths, and the
target of its PTR has one label in front of the service, which is the instance name or a part of it from
its start. -/
structure OneLabel (cfg : Config) (o : Outcome) (packet : List UInt8) : Prop where
  names : ∃ full host addr, (∀ label ∈ serviceLabels ++ full ++ host, 1 ≤ label.length ∧ label.length ≤ 63) ∧
    encodeName (fullInstance (resolveName cfg o)) = nameWire full ∧
    encodeName (resolveHost (resolveName cfg o)) = nameWire host ∧
    packet = (messageOf cfg full host addr).wire
  single : ∃ label, label <+: resolveName cfg o ∧ ptrTarget packet = some (label :: serviceLabels)

theorem drop_messageOf (cfg : Config) (full host : Name) (addr : InAddr) :
    ∃ rest, (messageOf cfg full host addr).wire.drop 12 =
      Record.wire ⟨serviceLabels, 12, 1, 4500, .ptr full⟩ ++ rest :=
  ⟨(messageOf cfg full host addr).answers.tail.flatMap Record.wire, by
    simp [Message.wire, messageOf, DnsMessage.putU16]⟩

theorem ptrTarget_messageOf {cfg : Config} {full host target : Name} {addr : InAddr}
    (hfull : ∀ label ∈ full, 1 ≤ label.length ∧ label.length ≤ 63)
    (h : ptrTarget (messageOf cfg full host addr).wire = some target) : target = full := by
  obtain ⟨rest, hrest⟩ := drop_messageOf cfg full host addr
  unfold ptrTarget at h
  rw [hrest] at h
  split at h
  case h_1 _ _ _ _ _ target' _ hread =>
    obtain rfl := Option.some.inj h
    exact RData.ptr.inj (rdata_of_readRecord_ptr nameFits_service hfull hread)
  case h_2 => cases h

/-- A `Start` that starts the worker has an address. -/
theorem inetPton_start (hstopped : a.running = false) (hstart : (a.start cfg o).2 = true) :
    firstLanIPv4 o.addresses ≠ [] ∧ ∃ addr, o.inetPton = some addr := by
  obtain ⟨hrunning, -⟩ | ⟨-, -, heq⟩ | ⟨-, -, -, heq⟩ | ⟨addr, -, hip, haddr, -⟩ := a.start_cases cfg o
  · simp [hstopped] at hrunning
  · simp [heq] at hstart
  · simp [heq] at hstart
  · exact ⟨hip, addr, haddr⟩

theorem head_encodeName (name : List UInt8) :
    (encodeName name).head? = some (UInt8.ofNat (name.takeWhile (· != 46)).length) := by
  unfold encodeName
  rw [encodeLabels]
  split
  · next hdrop =>
    have hall : name.takeWhile (· != 46) = name := by
      have hsplit := List.takeWhile_append_dropWhile (p := (· != 46)) (l := name)
      rwa [hdrop, List.append_nil] at hsplit
    rw [hall]
    rfl
  · rfl

theorem takeWhile_fullInstance (name : List UInt8) :
    (fullInstance name).takeWhile (· != 46) = name.takeWhile (· != 46) := by
  rw [fullInstance_eq]
  exact takeWhile_append_of_head name (by simp)

/-- A name that is written as one label is that label. -/
theorem label_of_encodeName (hle : label.length ≤ 63)
    (hname : encodeName (fullInstance name) = nameWire (label :: serviceLabels)) :
    46 ∉ name ∧ name.length = label.length := by
  have hservice : (nameWire serviceLabels).length = kServiceDomain.length + 2 := rfl
  have hlen : name.length = label.length := by
    have h := congrArg List.length hname
    rw [nameWire_cons, fullInstance_eq, encodeName, List.length_append, length_encodeLabels,
      List.length_append, List.length_append, hservice, stringWire] at h
    simp only [List.length_cons, List.length_nil] at h
    omega
  have hhead : (name.takeWhile (· != 46)).length = name.length := by
    have h := congrArg List.head? hname
    rw [head_encodeName, takeWhile_fullInstance, nameWire_cons, stringWire, List.cons_append,
      List.head?_cons, Option.some.injEq] at h
    have hshort := (List.takeWhile_prefix (· != 46) (l := name)).length_le
    have hbyte := congrArg UInt8.toNat h
    rw [UInt8.toNat_ofNat', UInt8.toNat_ofNat'] at hbyte
    omega
  refine ⟨fun hdot => ?_, hlen⟩
  have hall := (List.takeWhile_prefix (· != 46) (l := name)).eq_of_length hhead
  rw [List.takeWhile_eq_self_iff] at hall
  simpa using hall 46 hdot

/-- **When the instance name is one label.** In every `Start` that starts the worker of an advertiser
without a packet, as a new one is. -/
theorem instance_label_iff (a : MdnsAdvertiser) (cfg : Config) (o : Outcome) (hfirst : a.announcement = [])
    (hstopped : a.running = false) (hstart : (a.start cfg o).2 = true) :
    OneLabel cfg o (a.start cfg o).1.announcement ↔
      46 ∉ resolveName cfg o ∧ (resolveName cfg o).length ≤ 63 := by
  obtain ⟨hip, addr, haddr⟩ := inetPton_start hstopped hstart
  constructor
  · rintro ⟨⟨full, host, addr', hlabels, hfull, -, hpacket⟩, label, -, htarget⟩
    rw [hpacket] at htarget
    obtain rfl := ptrTarget_messageOf (fun l hl => hlabels l (by simp [hl])) htarget
    have hle := (hlabels label (by simp)).2
    obtain ⟨hdot, hlen⟩ := label_of_encodeName hle hfull
    exact ⟨hdot, hlen ▸ hle⟩
  · rintro ⟨hdot, hlen⟩
    have hinstance := nameFits_instance (resolveName_ne_nil cfg o) hlen
    have hpacket : (a.start cfg o).1.announcement =
        (messageOf cfg (resolveName cfg o :: serviceLabels) [hostLabel (resolveName cfg o), ascii "local"]
          addr).wire := by
      rw [announcement_start hstopped hip haddr, hfirst]
      exact announcement_eq hdot cfg addr
    refine ⟨⟨_, _, addr, ?_, encodeName_fullInstance hdot, encodeName_resolveHost hdot, hpacket⟩,
      resolveName cfg o, List.prefix_rfl, ?_⟩
    · exact List.forall_mem_append.2 ⟨List.forall_mem_append.2 ⟨nameFits_service.labels, hinstance.labels⟩,
        (nameFits_host hlen).labels⟩
    · obtain ⟨rest, hrest⟩ := drop_messageOf cfg (resolveName cfg o :: serviceLabels)
        [hostLabel (resolveName cfg o), ascii "local"] addr
      rw [hpacket, ptrTarget, hrest, readRecord_wire (ptrRecord_fits (resolveName_ne_nil cfg o) hlen)]

theorem instance_label_iff_blank : OneLabel blankConfig lanOutcome (fresh.start blankConfig lanOutcome).1.announcement :=
  (instance_label_iff fresh blankConfig lanOutcome rfl rfl (by decide)).2 ⟨by decide, by decide⟩

/-- A name with a dot. -/
def dottedConfig : Config := ⟨ascii "My.PC", ascii "0123", 3, 9000⟩

/-- **The name falls into two labels**: `My` and `PC`. -/
theorem dotted_instance_splits :
    (fresh.start dottedConfig lanOutcome).2 = true ∧
      ptrTarget (fresh.start dottedConfig lanOutcome).1.announcement =
        some (ascii "My" :: ascii "PC" :: serviceLabels) ∧
      ¬OneLabel dottedConfig lanOutcome (fresh.start dottedConfig lanOutcome).1.announcement := by
  have htarget : ptrTarget (fresh.start dottedConfig lanOutcome).1.announcement =
      some (ascii "My" :: ascii "PC" :: serviceLabels) := by decide +kernel
  refine ⟨by decide, htarget, ?_⟩
  rintro ⟨-, label, -, hsingle⟩
  rw [htarget] at hsingle
  simp at hsingle

end OpenDisplay.Net.MdnsPacket
