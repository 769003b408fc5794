import DHCPServer.Security.Acl
import DHCPServer.Server.ConfigFile

namespace DHCPServer

/-- A call of `dynamic_ACL_check`. -/
structure DynamicAclCall where
  chaddr : Mac
  tcache : TransactionCache

namespace DynamicAclCall

def associated (c : DynamicAclCall) : Nat := associatedTransactions c.chaddr c.tcache

/-- The number of transactions is high enough for the list. -/
def Listed (c : DynamicAclCall) : Prop := c.tcache.length / 2 ≤ c.associated

/-- At least half of the slots are transactions of the client. -/
def Half (c : DynamicAclCall) : Prop := c.tcache.length ≤ 2 * c.associated

instance (c : DynamicAclCall) : Decidable c.Listed :=
  inferInstanceAs (Decidable (c.tcache.length / 2 ≤ c.associated))

instance (c : DynamicAclCall) : Decidable c.Half :=
  inferInstanceAs (Decidable (c.tcache.length ≤ 2 * c.associated))

/-- Division rounds the half of an odd number of slots down. -/
theorem listed_iff (c : DynamicAclCall) :
    c.Listed ↔ c.Half ∨ c.tcache.length = 2 * c.associated + 1 := by
  rw [Listed, Half]
  omega

end DynamicAclCall

/-- The list behind a run of calls. -/
def dynamicAclRun (acl : Acl) (calls : List DynamicAclCall) : Acl :=
  calls.foldl (fun acl c => (dynamicAclCheck acl c.chaddr c.tcache).2) acl

/-- The call is denied behind the calls `before`. -/
def Denies (acl : Acl) (before : List DynamicAclCall) (c : DynamicAclCall) : Prop :=
  (dynamicAclCheck (dynamicAclRun acl before) c.chaddr c.tcache).1 = .deny

instance (acl : Acl) (before : List DynamicAclCall) (c : DynamicAclCall) :
    Decidable (Denies acl before c) :=
  inferInstanceAs (Decidable (_ = _))

/-- In a run a client is denied from the call on at which it holds half of the slots, and no client
is denied where the switch is off. -/
def KeepsThreshold (enable : Bool) (acl : Acl) (calls : List DynamicAclCall) : Prop :=
  ∀ before c after, calls = before ++ c :: after →
    (Denies acl before c ↔ enable = true ∧ ∃ d ∈ before ++ [c], d.chaddr = c.chaddr ∧ d.Half)

/-- With the switch on, a client whose transactions are half of the slots rounded down has held half
of them before. With the switch off, each client has fewer than that. -/
def Unaffected (enable : Bool) (calls : List DynamicAclCall) : Prop :=
  ∀ before c after, calls = before ++ c :: after →
    if enable then c.tcache.length = 2 * c.associated + 1 →
      ∃ d ∈ before, d.chaddr = c.chaddr ∧ d.Half
    else c.associated < c.tcache.length / 2

/-- `main` as far as `init_dynamic_ACL`, which does not look at the switch: the switch that the
arguments and the file leave, and the dynamic ACL. -/
def startDynamicAcl (cjson : JsonCodec) (fs : FileSystem) (ifap : List IfAddr)
    (argv : List CString) : Except Fault (Option (Bool × Acl)) := do
  let (rv, s) ← configParseArguments ifap argv initialSetup
  if rv ≠ 0 then return none
  let (loaded, s) ← configLoadConfiguration cjson fs ifap s
  if loaded then return some (s.dynamicAclEnable != 0, initDynamicAcl) else return none

section Runs

variable {calls before : List DynamicAclCall} {c : DynamicAclCall} {acl : Acl}

theorem dynamicAclCheck_enabled (entries : List CString) (c : DynamicAclCall) :
    (dynamicAclCheck ⟨entries, true, true⟩ c.chaddr c.tcache).2 =
      ⟨entries ++ ([c].filter (·.Listed)).map (uint8ArrayToMac ·.chaddr), true, true⟩ := by
  rw [dynamicAclCheck]
  by_cases hlisted : c.Listed
  · have hcount : c.tcache.length / 2 ≤ associatedTransactions c.chaddr c.tcache := hlisted
    simp [hlisted, hcount]
  · have hcount : ¬c.tcache.length / 2 ≤ associatedTransactions c.chaddr c.tcache := hlisted
    simp [hlisted, hcount]

theorem dynamicAclRun_concat (acl : Acl) (calls : List DynamicAclCall) (c : DynamicAclCall) :
    dynamicAclRun acl (calls ++ [c]) =
      (dynamicAclCheck (dynamicAclRun acl calls) c.chaddr c.tcache).2 :=
  List.foldl_append ..

/-- The list holds the addresses of the calls that have met the test; none is removed. -/
theorem dynamicAclRun_init (calls : List DynamicAclCall) :
    dynamicAclRun initDynamicAcl calls =
      ⟨(calls.filter (·.Listed)).map (uint8ArrayToMac ·.chaddr), true, true⟩ := by
  induction calls using List.reverseRecOn with
  | nil => rfl
  | append_singleton calls c ih =>
    rw [dynamicAclRun_concat, ih, List.filter_append, List.map_append]
    exact dynamicAclCheck_enabled _ c

/-- The client of a call is looked for in the list that the call leaves. -/
theorem dynamicAclCheck_status (hacl : acl.enabled = true) (c : DynamicAclCall) :
    (dynamicAclCheck acl c.chaddr c.tcache).1 =
      aclCheckClient (dynamicAclCheck acl c.chaddr c.tcache).2 c.chaddr := by
  rw [dynamicAclCheck, hacl]
  rfl

theorem aclCheckClient_deny (entries : List CString) (mac : Mac) :
    aclCheckClient ⟨entries, true, true⟩ mac = .deny ↔
      ∃ entry ∈ entries, strncmpEq entry (uint8ArrayToMac mac) 17 = true := by
  rw [aclCheckClient, aclCheckClientStr, ← List.any_eq_true]
  cases entries.any (strncmpEq · (uint8ArrayToMac mac) 17) <;> simp

/-- A client is denied from the first call on that meets the test. -/
theorem denies_iff :
    Denies initDynamicAcl before c ↔ ∃ d ∈ before ++ [c], d.chaddr = c.chaddr ∧ d.Listed := by
  have henabled : (dynamicAclRun initDynamicAcl before).enabled = true := by
    rw [dynamicAclRun_init]
  rw [Denies, dynamicAclCheck_status henabled, ← dynamicAclRun_concat, dynamicAclRun_init,
    aclCheckClient_deny]
  constructor
  · rintro ⟨entry, hentry, hequal⟩
    obtain ⟨d, hd, rfl⟩ := List.mem_map.mp hentry
    obtain ⟨hmem, hlisted⟩ := List.mem_filter.mp hd
    exact ⟨d, hmem, (strncmpEq_uint8ArrayToMac _ _).mp hequal, of_decide_eq_true hlisted⟩
  · rintro ⟨d, hmem, hmac, hlisted⟩
    refine ⟨uint8ArrayToMac d.chaddr, ?_, (strncmpEq_uint8ArrayToMac _ _).mpr hmac⟩
    apply List.mem_map_of_mem
    exact List.mem_filter.mpr ⟨hmem, decide_eq_true hlisted⟩

/-- A call up to some point of a run, with the calls before it. -/
theorem split_upto {after : List DynamicAclCall} {d : DynamicAclCall}
    (hcalls : calls = before ++ c :: after) (hd : d ∈ before ++ [c]) :
    ∃ pre post, before ++ [c] = pre ++ d :: post ∧ calls = pre ++ d :: (post ++ after) := by
  obtain ⟨pre, post, hsplit⟩ := List.append_of_mem hd
  refine ⟨pre, post, hsplit, ?_⟩
  rw [hcalls, List.append_cons before, hsplit, List.append_assoc, List.cons_append]

/-- With the switch on only calls that round down are in question. -/
theorem keepsThreshold_on :
    KeepsThreshold true initDynamicAcl calls ↔ Unaffected true calls := by
  constructor
  · intro h before c after hcalls hround
    have hlisted : c.Listed := c.listed_iff.mpr (.inr hround)
    obtain ⟨-, d, hd, hmac, hhalf⟩ := (h before c after hcalls).mp
      (denies_iff.mpr ⟨c, by simp, rfl, hlisted⟩)
    rcases List.mem_append.mp hd with hd | hd
    · exact ⟨d, hd, hmac, hhalf⟩
    · rw [List.mem_singleton.mp hd, DynamicAclCall.Half] at hhalf
      omega
  · intro h before c after hcalls
    rw [denies_iff]
    constructor
    · rintro ⟨d, hd, hmac, hlisted⟩
      refine ⟨rfl, ?_⟩
      rcases d.listed_iff.mp hlisted with hhalf | hround
      · exact ⟨d, hd, hmac, hhalf⟩
      · obtain ⟨pre, post, hsplit, hall⟩ := split_upto hcalls hd
        obtain ⟨d', hd', hmac', hhalf⟩ := h pre d (post ++ after) hall hround
        refine ⟨d', ?_, hmac'.trans hmac, hhalf⟩
        rw [hsplit]
        exact List.mem_append_left _ hd'
    · rintro ⟨-, d, hd, hmac, hhalf⟩
      exact ⟨d, hd, hmac, d.listed_iff.mpr (.inl hhalf)⟩

theorem keepsThreshold_off :
    KeepsThreshold false initDynamicAcl calls ↔ Unaffected false calls := by
  constructor
  · intro h before c after hcalls
    rw [if_neg Bool.false_ne_true]
    by_contra hlisted
    have hdenied : Denies initDynamicAcl before c :=
      denies_iff.mpr ⟨c, by simp, rfl, Nat.le_of_not_lt hlisted⟩
    exact Bool.false_ne_true ((h before c after hcalls).mp hdenied).1
  · intro h before c after hcalls
    refine iff_of_false ?_ fun hon => Bool.false_ne_true hon.1
    intro hdenied
    obtain ⟨d, hd, -, hlisted⟩ := denies_iff.mp hdenied
    obtain ⟨pre, post, -, hall⟩ := split_upto hcalls hd
    have hfew := h pre d (post ++ after) hall
    rw [if_neg Bool.false_ne_true] at hfew
    exact absurd hlisted (Nat.not_le_of_lt hfew)

theorem startDynamicAcl_acl {cjson : JsonCodec} {fs : FileSystem} {ifap : List IfAddr}
    {argv : List CString} {enable : Bool}
    (h : startDynamicAcl cjson fs ifap argv = .ok (some (enable, acl))) : acl = initDynamicAcl := by
  obtain ⟨⟨rv, s⟩, -, h⟩ := seq_ok.mp h
  dsimp only at h
  split at h
  · cases h
  obtain ⟨⟨loaded, final⟩, -, h⟩ := seq_ok.mp h
  dsimp only at h
  split at h
  · cases h
    rfl
  · cases h

/-- One transaction of the client in three slots. -/
def oneOfThree : DynamicAclCall :=
  ⟨Buffer.zero 6, (transCacheAddMessage 0 (transCacheNew 0 3 60) { dhcpMessageNew with xid := 1 }).2⟩

def twoOfThree : DynamicAclCall :=
  ⟨Buffer.zero 6, (transCacheAddMessage 0 oneOfThree.tcache { dhcpMessageNew with xid := 2 }).2⟩

def interfaceArgv : List CString := ["dhcps".toList, "--interface".toList, "eth0".toList]

def withoutDynamicAcl : List CString := interfaceArgv ++ ["--dynamic-acl-disable".toList]

/-- In every run of checks behind every startup the threshold is half of the slots and the switch is
obeyed, exactly when no check is affected by the rounding, or by the switch that is not read. -/
theorem dynamic_acl_threshold_iff {cjson : JsonCodec} {fs : FileSystem} {ifap : List IfAddr}
    {argv : List CString} {enable : Bool}
    (hstart : startDynamicAcl cjson fs ifap argv = .ok (some (enable, acl)))
    (calls : List DynamicAclCall) :
    KeepsThreshold enable acl calls ↔ Unaffected enable calls := by
  rw [startDynamicAcl_acl hstart]
  cases enable with
  | true => exact keepsThreshold_on
  | false => exact keepsThreshold_off

theorem two_of_three_threshold :
    startDynamicAcl JsonText.codec (fun _ => none) [] interfaceArgv =
        .ok (some (true, initDynamicAcl)) ∧
      (KeepsThreshold true initDynamicAcl [twoOfThree, oneOfThree] ↔
        Unaffected true [twoOfThree, oneOfThree]) := by
  have hstart : startDynamicAcl JsonText.codec (fun _ => none) [] interfaceArgv =
      .ok (some (true, initDynamicAcl)) := by decide +kernel
  exact ⟨hstart, dynamic_acl_threshold_iff hstart _⟩

/-- A client with one of three slots is denied, also with the switch off. -/
theorem one_of_three_denied :
    startDynamicAcl JsonText.codec (fun _ => none) [] interfaceArgv =
        .ok (some (true, initDynamicAcl)) ∧ ¬KeepsThreshold true initDynamicAcl [oneOfThree] ∧
      startDynamicAcl JsonText.codec (fun _ => none) [] withoutDynamicAcl =
        .ok (some (false, initDynamicAcl)) ∧ ¬KeepsThreshold false initDynamicAcl [oneOfThree] := by
  have hdenied : Denies initDynamicAcl [] oneOfThree := by decide +kernel
  refine ⟨by decide +kernel, ?_, by decide +kernel, ?_⟩
  · intro h
    obtain ⟨-, d, hd, -, hhalf⟩ := (h [] oneOfThree [] rfl).mp hdenied
    rw [List.mem_singleton.mp hd] at hhalf
    have hfew : ¬oneOfThree.Half := by decide +kernel
    exact hfew hhalf
  · intro h
    exact Bool.false_ne_true ((h [] oneOfThree [] rfl).mp hdenied).1

end Runs

end DHCPServer
