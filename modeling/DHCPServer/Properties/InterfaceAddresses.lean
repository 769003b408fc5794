import DHCPServer.Server.ConfigFile

namespace DHCPServer

/-- The interfaces have names, and the one with this name an entry with an IPv4 address and a
broadcast address. -/
def Reports (ifap : List IfAddr) (name : CString) : Prop :=
  (∀ ifa ∈ ifap, ifa.name ≠ []) ∧
    ∃ ifa ∈ ifap, ifa.name = name ∧ ∃ ip broadcast, ifa.addr = some ⟨true, ip⟩ ∧
      ifa.broadaddr = some broadcast ∧ ip ≠ 0 ∧ broadcast ≠ 0

/-- An IPv4 address of an interface. -/
def IsAddress (ifap : List IfAddr) (name : CString) (ip : UInt32) : Prop :=
  ∃ ifa ∈ ifap, ifa.name = name ∧ ifa.addr = some ⟨true, ip⟩

def IsBroadcast (ifap : List IfAddr) (name : CString) (broadcast : UInt32) : Prop :=
  ∃ ifa ∈ ifap, ifa.name = name ∧ (∃ ip, ifa.addr = some ⟨true, ip⟩) ∧
    ifa.broadaddr = some broadcast

/-- Both addresses of a configuration are nonzero addresses of its interface. -/
structure ServerFields.Resolved (c : ServerFields) (ifap : List IfAddr) : Prop where
  boundIp : c.boundIp ≠ 0
  broadcastAddr : c.broadcastAddr ≠ 0
  isAddress : IsAddress ifap c.interface c.boundIp
  isBroadcast : IsBroadcast ifap c.interface c.broadcastAddr

section Startup

variable (cjson : JsonCodec) (fs : FileSystem) (argv : List CString)

/-- The arguments and the file are accepted with these interfaces and give the configuration. -/
def Configures (ifap : List IfAddr) (c : ServerFields) : Prop :=
  ∃ s final, configParseArguments ifap argv initialSetup = .ok (0, s) ∧
    configLoadConfiguration cjson fs ifap s = .ok (true, final) ∧ final.config = c

/-- Wherever they are accepted and the chosen interface is reported, its addresses are known. -/
def Completes : Prop :=
  ∀ ifap c, Configures cjson fs argv ifap c → Reports ifap c.interface → c.Resolved ifap

/-- The last name of an interface among the arguments. -/
def interfaceArgument : CString := (flagsOf argv).foldl interfaceAfter []

/-- The first interface named for the default configuration. -/
def defaultInterface : Option CString := (flagsOf argv).findSome? defaultArgument

/-- The interface that the file names. -/
def namedInterface : Option CString :=
  fileInterface ((configFile cjson fs ((flagsOf argv).foldl pathAfter configDefaultPath)).bind
    (Json.getObjectItem "server".toList))

/-- An interface that the arguments name is the one named for the default configuration. Where the
file names it, the default configuration is not loaded for another one. -/
def ResolvesInterface : Prop :=
  if interfaceArgument argv ≠ [] then defaultInterface argv = some (interfaceArgument argv)
  else ∀ name, defaultInterface argv = some name →
    name = [] ∨ namedInterface cjson fs argv = some name

end Startup

section Search

variable {ifap : List IfAddr} {name : CString} {a : UInt32 × UInt32}

/-- Addresses that are not zero are the interface's. -/
def Known (ifap : List IfAddr) (name : CString) (a : UInt32 × UInt32) : Prop :=
  (a.1 ≠ 0 → IsAddress ifap name a.1) ∧ (a.2 ≠ 0 → IsBroadcast ifap name a.2)

theorem known_zero : Known ifap name (0, 0) := ⟨fun h => absurd rfl h, fun h => absurd rfl h⟩

theorem known_interfaceAddresses (h : Known ifap name a) :
    Known ifap name (interfaceAddresses name ifap a) := by
  refine interfaceAddresses_rule h ?_
  intro ifa hmem hname a ha
  rw [IfAddr.addresses]
  split
  · rename_i ip haddr
    refine ⟨fun _ => ⟨ifa, hmem, hname, haddr⟩, ?_⟩
    cases hbroadcast : ifa.broadaddr with
    | none => exact ha.2
    | some broadcast => exact fun _ => ⟨ifa, hmem, hname, ⟨ip, haddr⟩, hbroadcast⟩
  · exact ha

/-- A reported interface is found from addresses that are its own or zero. -/
theorem interfaceAddresses_reported (h : Reports ifap name) :
    (interfaceAddresses name ifap a).1 ≠ 0 ∧ (interfaceAddresses name ifap a).2 ≠ 0 := by
  obtain ⟨-, ifa, hmem, hname, ip, broadcast, haddr, hbroadcast, hip, hne⟩ := h
  exact interfaceAddresses_ne_zero hmem hname haddr hbroadcast hip hne

theorem resolved_of_known {c : ServerFields} (h : Reports ifap c.interface)
    (ha : Known ifap c.interface a)
    (hc : c.addresses = interfaceAddresses c.interface ifap a) : c.Resolved ifap := by
  obtain ⟨hip, hbroadcast⟩ := @interfaceAddresses_reported ifap c.interface a h
  obtain ⟨haddr, hbroadaddr⟩ := known_interfaceAddresses ha
  rw [← hc] at hip hbroadcast haddr hbroadaddr
  exact ⟨hip, hbroadcast, haddr hip, hbroadaddr hbroadcast⟩

end Search

section Configuration

variable {cjson : JsonCodec} {fs : FileSystem} {argv : List CString} {ifap : List IfAddr}
  {s : ServerSetup} {c : ServerFields}

/-- Accepted arguments are accepted with any interfaces, of which they resolve one at most. -/
theorem configParseArguments_ok
    (h : configParseArguments ifap argv initialSetup = .ok (0, s)) :
    s.configPath = (flagsOf argv).foldl pathAfter configDefaultPath ∧
      s.config.interface = interfaceArgument argv ∧
      s.config.addresses = resolveAddresses ifap (0, 0) (defaultInterface argv) ∧
      ∀ ifap', configParseArguments ifap' argv initialSetup =
        .ok (0, s.setAddresses (resolveAddresses ifap' (0, 0) (defaultInterface argv))) := by
  obtain ⟨hpath, hname, hset⟩ := configParseFlags_ok h
  have hall : ∀ ifap', configParseArguments ifap' argv initialSetup =
      .ok (0, s.setAddresses (resolveAddresses ifap' (0, 0) (defaultInterface argv))) :=
    fun ifap' => hset ifap' (0, 0)
  have hsame := (hall ifap).symm.trans h
  have hs := congrArg Prod.snd (Except.ok.inj hsame)
  exact ⟨hpath, hname, congrArg (fun s => s.config.addresses) hs.symm, hall⟩

/-- The sections behind the server section keep what it has loaded. -/
theorem configLoadSections_ok {config : Option Json} {final : ServerSetup}
    (h : configLoadSections config (s.setConfig c) = .ok (true, final)) :
    final.config = c ∧
      ∀ c', configLoadSections config (s.setConfig c') = .ok (true, final.setConfig c') := by
  have hset : ∀ c', configLoadSections config (s.setConfig c') = .ok (true, final.setConfig c') := by
    intro c'
    have hcomm := @configLoadSections_setConfig (s.setConfig c) config c'
    rw [h] at hcomm
    exact hcomm
  have hsame := (hset c).symm.trans h
  exact ⟨congrArg (fun r => r.2.config) (Except.ok.inj hsame).symm, hset⟩

/-- With a name among the arguments the addresses are those found while they were parsed. -/
theorem configures_argument (hname : interfaceArgument argv ≠ [])
    (h : Configures cjson fs argv ifap c) :
    c.interface = interfaceArgument argv ∧
      c.addresses = resolveAddresses ifap (0, 0) (defaultInterface argv) ∧
      ∀ ifap', ∃ c', Configures cjson fs argv ifap' c' ∧ c'.interface = interfaceArgument argv ∧
        c'.addresses = resolveAddresses ifap' (0, 0) (defaultInterface argv) := by
  obtain ⟨s, final, hparse, hload, rfl⟩ := h
  obtain ⟨hpath, hs, haddresses, hparse'⟩ := configParseArguments_ok hparse
  obtain ⟨fields, hserver, hsections⟩ := configLoadConfiguration_ok.mp hload
  obtain ⟨hfinal, hsections'⟩ := configLoadSections_ok hsections
  rcases configLoadServerConfig_ok.mp hserver with ⟨hne, hfields⟩ | ⟨hnil, -⟩
  · rw [hfinal, hfields]
    refine ⟨hs, haddresses, fun ifap' => ?_⟩
    have hserver' := (@configLoadServerConfig_ok ifap'
      ((configFile cjson fs s.configPath).bind (Json.getObjectItem "server".toList))
      (s.setAddresses (resolveAddresses ifap' (0, 0) (defaultInterface argv))).config _).mpr
      (.inl ⟨hne, rfl⟩)
    refine ⟨_, ⟨_, _, hparse' ifap', configLoadConfiguration_ok.mpr
      ⟨_, hserver', hsections' _⟩, rfl⟩, hs, rfl⟩
  · exact absurd (hs.symm.trans hnil) hname

/-- Without one the file names the interface, and its addresses are found from those before. -/
theorem configures_file (hname : interfaceArgument argv = [])
    (h : Configures cjson fs argv ifap c) :
    ∃ name, namedInterface cjson fs argv = some name ∧ c.interface = name ∧
      c.addresses = interfaceAddresses name ifap
        (resolveAddresses ifap (0, 0) (defaultInterface argv)) ∧
      ∀ ifap', Reports ifap' name → ∃ c', Configures cjson fs argv ifap' c' ∧
        c'.interface = name ∧ c'.addresses = interfaceAddresses name ifap'
          (resolveAddresses ifap' (0, 0) (defaultInterface argv)) := by
  obtain ⟨s, final, hparse, hload, rfl⟩ := h
  obtain ⟨hpath, hs, haddresses, hparse'⟩ := configParseArguments_ok hparse
  obtain ⟨fields, hserver, hsections⟩ := configLoadConfiguration_ok.mp hload
  obtain ⟨hfinal, hsections'⟩ := configLoadSections_ok hsections
  rcases configLoadServerConfig_ok.mp hserver with ⟨hne, -⟩ | ⟨hnil, name, hfile, -, -, hfields⟩
  · exact absurd (hs.trans hname) hne
  · refine ⟨name, ?_, ?_, ?_, fun ifap' hreports => ?_⟩
    · rw [namedInterface, ← hpath]
      exact hfile
    · rw [hfinal, hfields]
      rfl
    · rw [hfinal, hfields, ← haddresses]
      rfl
    · have hfound := @interfaceAddresses_reported ifap' name
        (resolveAddresses ifap' (0, 0) (defaultInterface argv)) hreports
      have hserver' := (@configLoadServerConfig_ok ifap'
        ((configFile cjson fs s.configPath).bind (Json.getObjectItem "server".toList))
        (s.setAddresses (resolveAddresses ifap' (0, 0) (defaultInterface argv))).config _).mpr
        (.inr ⟨hnil, name, hfile, hfound.1, hfound.2, rfl⟩)
      exact ⟨_, ⟨_, _, hparse' ifap', configLoadConfiguration_ok.mpr
        ⟨_, hserver', hsections' _⟩, rfl⟩, rfl, rfl⟩

/-- Addresses that a default configuration of the chosen interface has found are its own. -/
theorem known_resolveAddresses {name : CString} (hreports : Reports ifap name)
    (h : ∀ other, defaultInterface argv = some other → other = [] ∨ other = name) :
    Known ifap name (resolveAddresses ifap (0, 0) (defaultInterface argv)) := by
  cases hdefault : defaultInterface argv with
  | none => exact known_zero
  | some other =>
    rcases h other hdefault with rfl | rfl
    · rw [resolveAddresses, interfaceAddresses_absent hreports.1]
      exact known_zero
    · exact known_interfaceAddresses known_zero

theorem completes_of_resolves (h : ResolvesInterface cjson fs argv) :
    Completes cjson fs argv := by
  intro ifap c hc hreports
  rw [ResolvesInterface] at h
  split at h
  · rename_i hname
    obtain ⟨hinterface, haddresses, -⟩ := configures_argument hname hc
    rw [h, ← hinterface] at haddresses
    exact resolved_of_known hreports known_zero haddresses
  · rename_i hname
    obtain ⟨name, hnamed, rfl, haddresses, -⟩ := configures_file (not_not.mp hname) hc
    refine resolved_of_known hreports (known_resolveAddresses hreports ?_) haddresses
    intro other hother
    rcases h other hother with hnil | hsame
    · exact .inl hnil
    · exact .inr (Option.some.inj (hsame.symm.trans hnamed))

/-- A machine with one interface. -/
def oneInterface (name : CString) : List IfAddr := [⟨name, some ⟨true, 1⟩, some 1⟩]

theorem reports_oneInterface {name : CString} (h : name ≠ []) :
    Reports (oneInterface name) name := by
  refine ⟨?_, ⟨name, some ⟨true, 1⟩, some 1⟩, List.mem_singleton.mpr rfl, rfl, 1, 1, rfl, rfl,
    by decide, by decide⟩
  intro ifa hmem
  rw [List.mem_singleton.mp hmem]
  exact h

/-- A machine with two interfaces; the second one has a link-level entry before its IPv4 entry. -/
def twoInterfaces (other name : CString) : List IfAddr := [
  ⟨other, some ⟨true, 1⟩, some 1⟩,
  ⟨name, some ⟨false, 0⟩, none⟩,
  ⟨name, some ⟨true, 2⟩, some 2⟩]

theorem reports_twoInterfaces {other name : CString} (ho : other ≠ []) (hn : name ≠ []) :
    Reports (twoInterfaces other name) name := by
  refine ⟨?_, ⟨name, some ⟨true, 2⟩, some 2⟩, by simp [twoInterfaces], rfl, 2, 2, rfl, rfl,
    by decide, by decide⟩
  intro ifa hmem
  simp only [twoInterfaces, List.mem_cons, List.not_mem_nil, or_false] at hmem
  rcases hmem with rfl | rfl | rfl
  · exact ho
  · exact hn
  · exact hn

/-- The addresses of the first interface are taken for those of the second one. -/
theorem twoInterfaces_stale {other name : CString} (hne : other ≠ name) :
    interfaceAddresses name (twoInterfaces other name)
      (interfaceAddresses other (twoInterfaces other name) (0, 0)) = (1, 1) := by
  have hfirst : interfaceAddresses other (twoInterfaces other name) (0, 0) = (1, 1) := by
    simp [twoInterfaces, interfaceAddresses, IfAddr.addresses]
  rw [hfirst]
  simp [twoInterfaces, interfaceAddresses, IfAddr.addresses, hne]

theorem not_isAddress_twoInterfaces {other name : CString} (hne : other ≠ name) :
    ¬ IsAddress (twoInterfaces other name) name 1 := by
  rintro ⟨ifa, hmem, hname, haddr⟩
  simp only [twoInterfaces, List.mem_cons, List.not_mem_nil, or_false] at hmem
  rcases hmem with rfl | rfl | rfl
  · exact hne hname
  · cases haddr
  · cases haddr

theorem resolves_of_completes
    (haccepted : ∃ ifap c, Configures cjson fs argv ifap c ∧ Reports ifap c.interface)
    (h : Completes cjson fs argv) : ResolvesInterface cjson fs argv := by
  obtain ⟨ifap, c, hc, hreports⟩ := haccepted
  rw [ResolvesInterface]
  split
  · rename_i hname
    by_contra hother
    obtain ⟨-, -, hanywhere⟩ := configures_argument hname hc
    obtain ⟨c', hc', hinterface, haddresses⟩ :=
      hanywhere (oneInterface (interfaceArgument argv))
    have hzero : c'.addresses = (0, 0) := by
      rw [haddresses]
      cases hdefault : defaultInterface argv with
      | none => rfl
      | some other =>
        refine interfaceAddresses_absent fun ifa hmem hsame => hother ?_
        rw [hdefault, ← hsame, List.mem_singleton.mp hmem]
    have hone : Reports (oneInterface (interfaceArgument argv)) c'.interface := by
      rw [hinterface]
      exact reports_oneInterface hname
    exact (h _ c' hc' hone).boundIp (congrArg Prod.fst hzero)
  · rename_i hname
    obtain ⟨name, hnamed, rfl, -, hanywhere⟩ := configures_file (not_not.mp hname) hc
    intro other hdefault
    by_contra hneither
    obtain ⟨ho, hother⟩ := not_or.mp hneither
    have hne : other ≠ c.interface := fun hsame => hother (hsame ▸ hnamed)
    have hn : c.interface ≠ [] := by
      obtain ⟨hnames, ifa, hmem, hsame, -⟩ := hreports
      exact hsame ▸ hnames ifa hmem
    have htwo := reports_twoInterfaces ho hn
    obtain ⟨c', hc', hinterface, haddresses⟩ := hanywhere _ htwo
    rw [hdefault, resolveAddresses, twoInterfaces_stale hne] at haddresses
    have haddr := (h _ c' hc' (hinterface.symm ▸ htwo)).isAddress
    have hip : c'.boundIp = 1 := congrArg Prod.fst haddresses
    rw [hinterface, hip] at haddr
    exact not_isAddress_twoInterfaces hne haddr

/-- A startup that is accepted, as a test on the configuration it gives. -/
def accepts (cjson : JsonCodec) (fs : FileSystem) (argv : List CString) (ifap : List IfAddr)
    (test : ServerFields → Bool) : Bool :=
  (configParseArguments ifap argv initialSetup).toOption.any fun parsed =>
    parsed.1 == 0 && (configLoadConfiguration cjson fs ifap parsed.2).toOption.any fun loaded =>
      loaded.1 && test loaded.2.config

theorem configures_of_accepts {test : ServerFields → Bool}
    (h : accepts cjson fs argv ifap test = true) :
    ∃ c, Configures cjson fs argv ifap c ∧ test c = true := by
  obtain ⟨⟨rv, s⟩, hparse, hrest⟩ := exists_ok_of_any h
  obtain ⟨hrv, hrest⟩ := Bool.and_eq_true_iff.mp hrest
  obtain ⟨⟨loaded, final⟩, hload, htest⟩ := exists_ok_of_any hrest
  obtain ⟨hloaded, htest⟩ := Bool.and_eq_true_iff.mp htest
  obtain rfl : rv = 0 := beq_iff_eq.mp hrv
  obtain rfl : loaded = true := hloaded
  exact ⟨final.config, ⟨s, final, hparse, hload, rfl⟩,
    htest⟩

/-- Arguments of a server without a file. -/
def eth0Argv (flag : CString) : List CString := ["dhcps".toList, flag, "eth0".toList]

/-- Accepted arguments and file lead to the addresses of the chosen interface, on every machine
that reports it, exactly when the interface is one that is looked for. -/
theorem configuration_complete_iff
    (haccepted : ∃ ifap c, Configures cjson fs argv ifap c ∧ Reports ifap c.interface) :
    Completes cjson fs argv ↔ ResolvesInterface cjson fs argv :=
  ⟨resolves_of_completes haccepted, completes_of_resolves⟩

theorem default_configuration_completes :
    (∃ ifap c, Configures JsonText.codec (fun _ => none)
        (eth0Argv "--default-configuration".toList) ifap c ∧ Reports ifap c.interface) ∧
      (Completes JsonText.codec (fun _ => none) (eth0Argv "--default-configuration".toList) ↔
        ResolvesInterface JsonText.codec (fun _ => none)
          (eth0Argv "--default-configuration".toList)) := by
  have haccepted : ∃ ifap c, Configures JsonText.codec (fun _ => none)
      (eth0Argv "--default-configuration".toList) ifap c ∧ Reports ifap c.interface := by
    obtain ⟨c, hc, hinterface⟩ := @configures_of_accepts JsonText.codec (fun _ => none)
      (eth0Argv "--default-configuration".toList) (oneInterface "eth0".toList)
      (·.interface == "eth0".toList) (by decide +kernel)
    refine ⟨_, c, hc, ?_⟩
    rw [beq_iff_eq.mp hinterface]
    exact reports_oneInterface (by decide)
  exact ⟨haccepted, configuration_complete_iff haccepted⟩

/-- With the interface given by its flag alone the addresses are never looked for. -/
theorem interface_flag_incomplete {program name : CString} (hname : name.take 256 ≠ [])
    (haccepted : ∃ ifap c, Configures cjson fs [program, "--interface".toList, name] ifap c ∧
      Reports ifap c.interface) :
    ¬ Completes cjson fs [program, "--interface".toList, name] := by
  intro h
  have hflags : flagsOf [program, "--interface".toList, name] = [.interface name] :=
    @Getopt.getoptLong_pair Flag longOptions shortOptions .unknown "interface".toList .interface
      (by decide) (by decide) rfl name []
  have hresolves := resolves_of_completes haccepted h
  have hargument : interfaceArgument [program, "--interface".toList, name] = name.take 256 := by
    rw [interfaceArgument, hflags]
    rfl
  have hdefault : defaultInterface [program, "--interface".toList, name] = none := by
    rw [defaultInterface, hflags]
    rfl
  rw [ResolvesInterface, hargument, hdefault, if_pos hname] at hresolves
  cases hresolves

/-- `--interface eth0` is accepted and leaves both addresses zero, so that the configuration is not
complete. -/
theorem interface_flag_leaves_zero :
    (∃ c, Configures JsonText.codec (fun _ => none) (eth0Argv "--interface".toList)
        (oneInterface "eth0".toList) c ∧ Reports (oneInterface "eth0".toList) c.interface ∧
      c.boundIp = 0 ∧ c.broadcastAddr = 0 ∧ ¬ c.Resolved (oneInterface "eth0".toList)) ∧
      ¬ Completes JsonText.codec (fun _ => none) (eth0Argv "--interface".toList) := by
  obtain ⟨c, hc, htest⟩ := @configures_of_accepts JsonText.codec (fun _ => none)
    (eth0Argv "--interface".toList) (oneInterface "eth0".toList)
    (fun c => c.interface == "eth0".toList && (c.boundIp == 0 && c.broadcastAddr == 0))
    (by decide +kernel)
  obtain ⟨hinterface, hzero⟩ := Bool.and_eq_true_iff.mp htest
  obtain ⟨hip, hbroadcast⟩ := Bool.and_eq_true_iff.mp hzero
  have hreports : Reports (oneInterface "eth0".toList) c.interface := by
    rw [beq_iff_eq.mp hinterface]
    exact reports_oneInterface (by decide)
  refine ⟨⟨c, hc, hreports, beq_iff_eq.mp hip, beq_iff_eq.mp hbroadcast, fun hresolved => ?_⟩, ?_⟩
  · exact hresolved.boundIp (beq_iff_eq.mp hip)
  · exact interface_flag_incomplete (by decide) ⟨_, c, hc, hreports⟩

end Configuration

end DHCPServer
