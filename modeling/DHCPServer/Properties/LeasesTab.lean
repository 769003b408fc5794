import DHCPServer.Gui.Leases

namespace DHCPServer

open LeaseFile

/-- A refresh of the tab: the selections of the user before it, and the lease files as it finds
them, with what stands in memory behind the text of the file it reads. -/
structure LeaseLook where
  poolSelected : Nat
  leaseSelected : Nat
  directory : List CString
  files : FileSystem
  behind : CString

def TabLease.look (cjson : JsonCodec) (t : TabLease) (a : LeaseLook) :
    Except ActionError TabLease :=
  { t with poolSelected := a.poolSelected, leaseSelected := a.leaseSelected }.refresh cjson
    a.directory a.files a.behind

/-- The files are those that the operations of `lease.c` have left from none, and the directory is
the list of those that lie in it. -/
structure LeaseLook.Served (cjson : JsonCodec) (a : LeaseLook) (ops : List LeaseOp) : Prop where
  run : LeaseFile.run cjson (fun _ => none) ops = .ok a.files
  fits : ∀ op ∈ ops, Fits op.pool
  once : a.directory.Nodup
  listed : ∀ path, path ∈ a.directory ↔
    (a.files.read path).isSome ∧ ∃ name, '/' ∉ name ∧ path = leasesPath ++ name

/-- The tab shows the leases, with the pool's name as the menu has it, and the details of the
selected one. -/
structure TabLease.Shows (t : TabLease) (pool : CString) (records : List LeaseRecord) : Prop where
  leases : t.leases = records.map fun r => ⟨r, pool ++ " ".toList⟩
  leasedAddresses : t.leasedAddresses = records.map fun r => uint32ToIpv4Address r.address
  details : records = [] → t.details = noLeaseDetails
  selected : records ≠ [] → ∃ r, records[t.leaseSelected]? = some r ∧
    t.details = TabLease.leaseDetails ⟨r, pool ++ " ".toList⟩

namespace LeaseFile

section Files

variable {cjson : JsonCodec} {fs fs' : FileSystem} {pool : CString} {file : FileId}

/-- Opening makes the file of the pool and touches no other. -/
theorem leaseOpenLeaseFile_frame (h : file ≠ leaseFile pool) :
    (leaseOpenLeaseFile cjson fs pool).2 file = fs file := by
  unfold leaseOpenLeaseFile
  split
  · rfl
  · exact FileSystem.set_other h

theorem leaseOpenLeaseFile_isSome :
    ((leaseOpenLeaseFile cjson fs pool).2 (leaseFile pool)).isSome := by
  unfold leaseOpenLeaseFile
  split
  · rename_i hread
    exact Option.isSome_of_eq_some hread
  · exact Option.isSome_of_eq_some FileSystem.read_set

/-- An operation leaves a file for its pool and touches no other. -/
theorem perform_files {op : LeaseOp} (h : op.perform cjson fs = .ok fs') :
    (fs' (leaseFile op.pool)).isSome ∧ ∀ file, file ≠ leaseFile op.pool → fs' file = fs file := by
  have hsome := @leaseOpenLeaseFile_isSome cjson fs op.pool
  have hframe := fun file => @leaseOpenLeaseFile_frame cjson fs op.pool file
  generalize hopen : leaseOpenLeaseFile cjson fs op.pool = opened at hsome hframe
  obtain ⟨text, fs₁⟩ := opened
  have hset : ∀ text, ((fs₁.set (leasePath op.pool) text) (leaseFile op.pool)).isSome ∧
      ∀ file, file ≠ leaseFile op.pool → fs₁.set (leasePath op.pool) text file = fs file :=
    fun text => ⟨FileSystem.set_isSome hsome,
      fun file hf => (FileSystem.set_other hf).trans (hframe file hf)⟩
  cases op with
  | add lease =>
    obtain rfl := Except.ok.inj h
    unfold leaseAdd
    rw [show leaseOpenLeaseFile cjson fs lease.poolName = (text, fs₁) from hopen]
    dsimp only
    split
    · exact ⟨hsome, hframe⟩
    · exact hset _
  | remove address poolName =>
    obtain ⟨⟨status, fs₂⟩, hremove, h⟩ := seq_ok.mp h
    obtain rfl := Except.ok.inj h
    unfold leaseRemove at hremove
    rw [show leaseOpenLeaseFile cjson fs poolName = (text, fs₁) from hopen] at hremove
    dsimp only at hremove
    split at hremove
    · cases hremove
      exact ⟨hsome, hframe⟩
    · obtain ⟨found, -, hremove⟩ := seq_ok.mp hremove
      split at hremove
      · cases hremove
        exact hset _
      · cases hremove
        exact hset _
  | retrieve address poolName =>
    obtain ⟨⟨status, result, fs₂⟩, hretrieve, h⟩ := seq_ok.mp h
    obtain rfl := Except.ok.inj h
    unfold leaseRetrieve at hretrieve
    rw [show leaseOpenLeaseFile cjson fs poolName = (text, fs₁) from hopen] at hretrieve
    dsimp only at hretrieve
    split at hretrieve
    · cases hretrieve
      exact ⟨hsome, hframe⟩
    · obtain ⟨found, -, hretrieve⟩ := seq_ok.mp hretrieve
      split at hretrieve
      · cases hretrieve
        exact ⟨hsome, hframe⟩
      · obtain ⟨read, -, hretrieve⟩ := seq_ok.mp hretrieve
        cases hretrieve
        exact ⟨hsome, hframe⟩

/-- The files of a run are those of the pools it has worked on. -/
theorem run_isSome {ops : List LeaseOp} (h : run cjson fs ops = .ok fs') (file : FileId) :
    (fs' file).isSome ↔ (fs file).isSome ∨ ∃ op ∈ ops, leaseFile op.pool = file := by
  induction ops generalizing fs with
  | nil =>
    obtain rfl := Except.ok.inj h
    simp
  | cons op ops ih =>
    unfold run at h
    rw [List.foldlM_cons] at h
    obtain ⟨fs₁, hop, hrest⟩ := seq_ok.mp h
    obtain ⟨hsome, hframe⟩ := perform_files hop
    rw [ih hrest]
    by_cases hf : file = leaseFile op.pool
    · subst hf
      simp [hsome]
    · have hne : leaseFile op.pool ≠ file := Ne.symm hf
      simp [hframe file hf, hne]

end Files

end LeaseFile

section Entries

variable {pool : CString} {records : List LeaseRecord}

theorem pathText_eq : pathText pool = leasesPath ++ (pool ++ ".lease".toList) := rfl

/-- The page makes the name of the pool of a path. -/
theorem poolEntry_leasePath (h : Fits pool) :
    poolEntry (leasePath pool) = .ok (pool ++ " ".toList) := by
  have hlast : findLastOf '.' (leasePath pool) = some (leasesPath ++ pool).length := by
    rw [leasePath_eq h, pathText_eq, ← List.append_assoc]
    exact findLastOf_append (by decide)
  have hname : substr (leasePath pool) leasesPath.length pool.length = .ok pool := by
    rw [leasePath_eq h, pathText_eq, substr, if_neg (by simp), List.drop_left, List.take_left]
  rw [List.length_append] at hlast
  unfold poolEntry
  simp only [hlast, Nat.le_add_right, if_true, Nat.add_sub_cancel_left, hname]
  rfl

theorem mapM_poolEntry {names : List CString} (h : ∀ p ∈ names, Fits p) :
    (names.map leasePath).mapM poolEntry = .ok (names.map (· ++ " ".toList)) := by
  induction names with
  | nil => rfl
  | cons p names ih =>
    rw [List.map_cons, List.mapM_cons, poolEntry_leasePath (h p (by simp)),
      ih fun q hq => h q (by simp [hq])]
    rfl

theorem leaseElement_leaseToCjson (poolName : CString) (mac : Mac) (r : LeaseRecord) :
    leaseElement poolName mac (leaseToCjson r) =
      .ok (⟨r, poolName⟩, uint32ToIpv4Address r.address) := by
  have hsubnet : stringMember (leaseToCjson r) "subnet".toList =
      some (uint32ToIpv4Address r.subnet) := rfl
  have hxid : numberMember (leaseToCjson r) "xid".toList = some (r.xid.toNat : Rat) := rfl
  have hstart : numberMember (leaseToCjson r) "lease_start".toList =
      some (r.leaseStart.toNat : Rat) := rfl
  have hexpire : numberMember (leaseToCjson r) "lease_expire".toList =
      some (r.leaseExpire.toNat : Rat) := rfl
  have hflags : numberMember (leaseToCjson r) "flags".toList = some (r.flags.toNat : Rat) := rfl
  have hmac : stringMember (leaseToCjson r) "client_mac_address".toList =
      some (hexBytes r.clientMacAddress.data) := rfl
  unfold leaseElement
  simp only [address_leaseToCjson, hsubnet, hxid, hstart, hexpire, hflags, hmac,
    macToUint8Array_hexBytes, deref, bind, Except.bind, pure, Except.pure,
    ipv4AddressToUint32_uint32ToIpv4Address, numberToUInt32_toNat, numberToUInt8_toNat]

/-- The run lemma of the loop over what was written for records. -/
theorem leaseElements_map (poolName : CString) (mac : Mac) (records : List LeaseRecord) :
    leaseElements poolName mac (records.map leaseToCjson) =
      .ok (records.map (⟨·, poolName⟩), records.map fun r => uint32ToIpv4Address r.address) := by
  induction records generalizing mac with
  | nil => rfl
  | cons r records ih =>
    rw [List.map_cons, leaseElements, leaseElement_leaseToCjson]
    simp only [bind, Except.bind, ih]
    rfl

end Entries

section Look

variable {cjson : JsonCodec} {a : LeaseLook} {ops : List LeaseOp} {t t' : TabLease}

/-- What stands behind the last `/` of a name. -/
theorem exists_base (s : CString) : ∃ base : CString, '/' ∉ base ∧ base.length ≤ s.length ∧
    (s = base ∨ ∃ pre, s = pre ++ '/' :: base) := by
  induction s with
  | nil => exact ⟨[], List.not_mem_nil, le_rfl, .inl rfl⟩
  | cons c s ih =>
    obtain ⟨base, hbase, hlen, rfl | ⟨pre, rfl⟩⟩ := ih
    · by_cases hc : c = '/'
      · exact ⟨s, hbase, Nat.le_succ _, .inr ⟨[], by rw [hc]; rfl⟩⟩
      · exact ⟨c :: s, List.not_mem_cons_of_ne_of_not_mem (Ne.symm hc) hbase, le_rfl, .inl rfl⟩
    · exact ⟨base, hbase, hlen.trans (Nat.le_succ _), .inr ⟨c :: pre, rfl⟩⟩

/-- Whatever the name of a pool, that of its file ends in `.lease`. -/
theorem leaseFile_base (h : Fits pool) : ∃ (dir : FileId) (base : CString), '/' ∉ base ∧
    base.length ≤ pool.length ∧ leaseFile pool = dir ++ [base ++ ".lease".toList] := by
  obtain ⟨base, hbase, hlen, rfl | ⟨pre, rfl⟩⟩ := exists_base pool
  · exact ⟨_, pool, hbase, hlen, leaseFile_eq h hbase⟩
  · have hpath : pathText (pre ++ '/' :: base) =
        (leasesPath ++ pre) ++ '/' :: (base ++ ".lease".toList) := by
      rw [pathText_eq]
      simp
    have hdir : leasesPath ++ pre ≠ [] := List.append_ne_nil_of_left_ne_nil (by decide) _
    exact ⟨.ofPath (leasesPath ++ pre), base, hbase, hlen, by
      rw [leaseFile, leasePath_eq h, hpath, ofPath_lease hdir hbase]⟩

/-- A file of a pool that lies in the directory is that of a pool without `/` in its name. -/
theorem listed_plain {name : CString} (h : Fits pool) (hname : '/' ∉ name)
    (hfile : leaseFile pool = .ofPath (leasesPath ++ name)) :
    ∃ p, Plain p ∧ leasesPath ++ name = leasePath p ∧ leaseFile pool = leaseFile p := by
  obtain ⟨dir, base, hbase, hlen, heq⟩ := leaseFile_base h
  have hpath : leasesPath ++ name = "/etc/dhcp/lease".toList ++ '/' :: name := rfl
  have hfollow : FileId.ofPath (leasesPath ++ name) = leaseDirectory.follow name := by
    rw [hpath, FileId.ofPath_append (by decide) hname, ofPath_directory]
  have hlast : (leaseDirectory.follow name).getLast? = some (base ++ ".lease".toList) := by
    rw [← hfollow, ← hfile, heq, List.getLast?_concat]
  have hlong : 6 ≤ (base ++ ".lease".toList).length := by simp
  -- the directories above are no lease files
  have hspecial : ∀ n : CString, n.length < 6 →
      (leaseDirectory.follow name).getLast? ≠ some n := by
    intro n hn hlast'
    rw [hlast] at hlast'
    rw [Option.some.inj hlast'] at hlong
    omega
  have hdown : (leaseDirectory.follow name).getLast? = some name := by
    by_cases hnil : name = [] ∨ name = ['.']
    · refine absurd ?_ (hspecial "lease".toList (by decide))
      rw [FileId.follow, if_pos hnil]
      rfl
    · by_cases hdots : name = ['.', '.']
      · refine absurd ?_ (hspecial "dhcp".toList (by decide))
        rw [hdots]
        decide
      · rw [FileId.follow, if_neg hnil, if_neg hdots, List.getLast?_concat]
  have hn : name = base ++ ".lease".toList := Option.some.inj (hdown.symm.trans hlast)
  have hfits : Fits base := by
    unfold Fits at h ⊢
    rw [pathText_eq, List.length_append, List.length_append] at h ⊢
    omega
  have htext : leasesPath ++ name = leasePath base := by
    rw [leasePath_eq hfits, pathText_eq, hn]
  exact ⟨base, ⟨hfits, hbase⟩, htext, by rw [hfile, htext]; rfl⟩

/-- The directory holds the file of each pool that was worked on, unless its name leads into
another directory. -/
theorem LeaseLook.Served.names (h : a.Served cjson ops) : ∃ names : List CString, names.Nodup ∧
    (∀ p, p ∈ names ↔ Plain p ∧ ∃ op ∈ ops, leaseFile op.pool = leaseFile p) ∧
    a.directory = names.map leasePath := by
  have hfile : ∀ file, (a.files file).isSome ↔ ∃ op ∈ ops, leaseFile op.pool = file := by
    intro file
    rw [run_isSome h.run]
    simp
  have hpre : ∀ path ∈ a.directory, ∃ p, (Plain p ∧ ∃ op ∈ ops, leaseFile op.pool = leaseFile p) ∧
      leasePath p = path := by
    intro path hpath
    obtain ⟨hsome, name, hname, rfl⟩ := (h.listed path).mp hpath
    obtain ⟨op, hop, heq⟩ := (hfile _).mp hsome
    obtain ⟨p, hp, htext, hsame⟩ := listed_plain (h.fits op hop) hname heq
    exact ⟨p, ⟨hp, op, hop, hsame⟩, htext.symm⟩
  choose! f hf using hpre
  have hnames : (a.directory.map f).map leasePath = a.directory := by
    rw [List.map_map]
    exact (List.map_congr_left fun path hpath => (hf path hpath).2).trans (List.map_id _)
  refine ⟨a.directory.map f, (hnames.symm ▸ h.once).of_map _, fun p => ⟨fun hp => ?_, ?_⟩,
    hnames.symm⟩
  · obtain ⟨path, hpath, rfl⟩ := List.mem_map.mp hp
    exact (hf path hpath).1
  · rintro ⟨hp, op, hop, hsame⟩
    have hslash : '/' ∉ p ++ ".lease".toList := by
      rw [List.mem_append, not_or]
      exact ⟨hp.slash, by decide⟩
    have hpath : leasePath p ∈ a.directory := by
      apply (h.listed _).mpr
      refine ⟨(hfile _).mpr ⟨op, hop, hsame⟩, p ++ ".lease".toList, hslash, ?_⟩
      rw [leasePath_eq hp.fits, pathText_eq]
    rw [List.mem_map]
    refine ⟨leasePath p, hpath, ?_⟩
    obtain ⟨⟨hplain, -⟩, heq⟩ := hf _ hpath
    by_contra hne
    exact hp.ne hplain hne (congrArg FileId.ofPath heq)

/-- The records of a pool are in its file. -/
theorem LeaseLook.Served.file (hc : Lawful cjson) (h : a.Served cjson ops) {p : CString}
    (hp : ∃ op ∈ ops, leaseFile op.pool = leaseFile p) : ∃ tail,
      a.files.read (leasePath p) = some (cjson.print (document (recordsOf ops p)) ++ tail) := by
  have hempty : Represents cjson (fun _ => none) fun _ => [] := fun _ => .inl ⟨rfl, rfl⟩
  obtain ⟨fs', hrun, hrep⟩ := hempty.run hc ops
  obtain rfl := Except.ok.inj (h.run.symm.trans hrun)
  rcases hrep p with ⟨hnone, -⟩ | hsome
  · have hfile := (run_isSome h.run (leaseFile p)).mpr (.inr hp)
    rw [hnone] at hfile
    cases hfile
  · exact hsome

/-- The menu of a refresh. -/
theorem loadPools_served {names : List CString} (hfits : ∀ p ∈ names, Fits p)
    (hdir : a.directory = names.map leasePath) (t : TabLease) :
    t.loadPools a.directory = .ok { t with pools := names.map (· ++ " ".toList) } := by
  rw [TabLease.loadPools, hdir, mapM_poolEntry hfits]
  rfl

/-- A pool that has been selected anew and that the menu does not have. -/
theorem loadLeases_outside (hne : t.pools ≠ []) (hnew : some t.poolSelected ≠ t.poolSelectedLast)
    (hout : t.pools.length ≤ t.poolSelected) (files : FileSystem) (behind : CString) :
    t.loadLeases cjson files behind = .error (.fault .outOfBounds) := by
  have hlen : t.pools.length ≠ 0 := by simpa using hne
  rw [TabLease.loadLeases, if_neg hnew, if_neg hlen, List.getElem?_eq_none hout]

/-- A pool that has been selected anew is loaded from its file. -/
theorem loadLeases_served (hc : Lawful cjson) (h : a.Served cjson ops) {p : CString}
    (hmem : ∃ op ∈ ops, leaseFile op.pool = leaseFile p) (hfits : Fits p)
    (hpool : t.pools[t.poolSelected]? = some (p ++ " ".toList))
    (hnew : some t.poolSelected ≠ t.poolSelectedLast) :
    t.loadLeases cjson a.files a.behind = .ok (0, { t with
      leases := (recordsOf ops p).map (⟨·, p ++ " ".toList⟩)
      leasedAddresses := (recordsOf ops p).map fun r => uint32ToIpv4Address r.address
      poolSelectedLast := some t.poolSelected
      leaseSelected := 0
      leaseSelectedLast := none }) := by
  have hlen : t.pools.length ≠ 0 := by
    have hlt := (List.getElem?_eq_some_iff.mp hpool).1
    omega
  obtain ⟨tail, hfile⟩ := h.file hc hmem
  have hpath : leasesPath ++ (p ++ " ".toList).dropLast ++ ".lease".toList = leasePath p := by
    rw [leasePath_eq hfits, pathText_eq, ← List.append_assoc]
    congr 2
    exact List.dropLast_concat
  have hparse : cjson.parse (cjson.print (document (recordsOf ops p)) ++ tail ++ a.behind) =
      some (document (recordsOf ops p)) := by
    rw [List.append_assoc]
    exact parse_document hc _ _
  have hleases : (document (recordsOf ops p)).getObjectItem "leases".toList =
      some (.array ((recordsOf ops p).map leaseToCjson)) := rfl
  rw [TabLease.loadLeases, if_neg hnew, if_neg hlen]
  simp only [hpool, hpath, hfile, hparse, TabLease.parseJsonLeases, hleases, leaseElements_map]
  rfl

/-- The details that the tab remembers to have loaded are those of the lease at their index. -/
def TabLease.Remembers (t : TabLease) : Prop :=
  ∀ i, t.leaseSelectedLast = some i →
    ∃ lease, t.leases[i]? = some lease ∧ t.details = TabLease.leaseDetails lease

/-- The details are those of the selected lease, or blank when there is none. -/
structure TabLease.Selected (t : TabLease) : Prop where
  blank : t.leases = [] → t.details = noLeaseDetails
  lease : t.leases ≠ [] → ∃ lease, t.leases[t.leaseSelected]? = some lease ∧
    t.details = TabLease.leaseDetails lease

/-- Loading the details changes nothing else, and gets out of bounds exactly when the selection
does. -/
theorem loadLeaseDetails_spec (hr : t.Remembers) :
    ((∃ t', t.loadLeaseDetails = .ok t') ↔ t.leases = [] ∨ t.leaseSelected < t.leases.length) ∧
    ∀ t', t.loadLeaseDetails = .ok t' → t'.Remembers ∧ t'.Selected ∧
      ∃ details last, t' = { t with details := details, leaseSelectedLast := last } := by
  unfold TabLease.loadLeaseDetails
  by_cases hlast : some t.leaseSelected = t.leaseSelectedLast
  · rw [if_pos hlast]
    obtain ⟨lease, hlease, hdetails⟩ := hr t.leaseSelected hlast.symm
    have hlt : t.leaseSelected < t.leases.length := by
      apply Nat.lt_of_not_le
      intro hle
      rw [List.getElem?_eq_none hle] at hlease
      cases hlease
    refine ⟨iff_of_true ⟨t, rfl⟩ (.inr hlt), fun t' h => ?_⟩
    obtain rfl := Except.ok.inj h
    refine ⟨hr, ⟨fun hnil => ?_, fun _ => ⟨lease, hlease, hdetails⟩⟩, t.details,
      t.leaseSelectedLast, rfl⟩
    simp [hnil] at hlt
  · rw [if_neg hlast]
    by_cases hnil : t.leases = []
    · rw [if_pos (by rw [hnil]; rfl)]
      refine ⟨iff_of_true ⟨_, rfl⟩ (.inl hnil), fun t' h => ?_⟩
      obtain rfl := Except.ok.inj h
      refine ⟨fun i hi => ?_, ⟨fun _ => rfl, fun hne => absurd hnil hne⟩, _, _, rfl⟩
      obtain ⟨lease, hlease, -⟩ := hr i hi
      simp [hnil] at hlease
    · rw [if_neg (by simpa using hnil)]
      cases hlease : t.leases[t.leaseSelected]? with
      | none =>
        have hle := List.getElem?_eq_none_iff.mp hlease
        refine ⟨iff_of_false nofun (not_or.mpr ⟨hnil, Nat.not_lt.mpr hle⟩), nofun⟩
      | some lease =>
        have hlt := (List.getElem?_eq_some_iff.mp hlease).1
        refine ⟨iff_of_true ⟨_, rfl⟩ (.inr hlt), fun t' h => ?_⟩
        obtain rfl := Except.ok.inj h
        refine ⟨fun i hi => ?_, ⟨fun h => absurd h hnil, fun _ => ⟨lease, hlease, rfl⟩⟩, _, _, rfl⟩
        obtain rfl := Option.some.inj hi
        exact ⟨lease, hlease, rfl⟩

/-- The menu has the pools whose files the directory holds, each once and in their order. -/
def TabLease.Lists (t : TabLease) (a : LeaseLook) (ops : List LeaseOp) : Prop :=
  ∃ names : List CString, names.Nodup ∧
    (∀ p, p ∈ names ↔ Plain p ∧ ∃ op ∈ ops, leaseFile op.pool = leaseFile p) ∧
    a.directory = names.map leasePath ∧ t.pools = names.map (· ++ " ".toList)

/-- What a refresh does to a tab. A pool that is selected as before is not read again. -/
structure Looked (cjson : JsonCodec) (a : LeaseLook) (ops : List LeaseOp) (t t' : TabLease) :
    Prop where
  remembers : t'.Remembers
  selected : t'.Selected
  poolSelectedLast : t'.poolSelectedLast = some a.poolSelected
  menu : t'.Lists a ops
  kept : some a.poolSelected = t.poolSelectedLast →
    t'.leases = t.leases ∧ t'.leasedAddresses = t.leasedAddresses
  loaded : some a.poolSelected ≠ t.poolSelectedLast → ∃ p, Plain p ∧
    (∃ op ∈ ops, leaseFile op.pool = leaseFile p) ∧ a.directory[a.poolSelected]? = some (leasePath p) ∧
    t'.leases = (recordsOf ops p).map (⟨·, p ++ " ".toList⟩) ∧
    t'.leasedAddresses = (recordsOf ops p).map fun r => uint32ToIpv4Address r.address

/-- The step lemma. -/
theorem look_served (hc : Lawful cjson) (h : a.Served cjson ops) (hne : a.directory ≠ [])
    (hr : t.Remembers) :
    ((∃ t', t.look cjson a = .ok t') ↔ if some a.poolSelected = t.poolSelectedLast
      then t.leases = [] ∨ a.leaseSelected < t.leases.length
      else a.poolSelected < a.directory.length) ∧
    ∀ t', t.look cjson a = .ok t' → Looked cjson a ops t t' := by
  obtain ⟨names, hnodup, hmem, hdir⟩ := h.names
  have hfits : ∀ p ∈ names, Fits p := fun p hp => ((hmem p).mp hp).1.fits
  let t₁ : TabLease := { t with
    poolSelected := a.poolSelected
    leaseSelected := a.leaseSelected
    pools := names.map (· ++ " ".toList) }
  have hlook : t.look cjson a = t₁.loadLeases cjson a.files a.behind >>= fun x =>
      x.2.loadLeaseDetails := by
    rw [TabLease.look, TabLease.refresh, loadPools_served hfits hdir]
    rfl
  rw [hlook]
  by_cases hsame : some a.poolSelected = t.poolSelectedLast
  · have hload : t₁.loadLeases cjson a.files a.behind = .ok (0, t₁) := if_pos hsame
    have hr₁ : t₁.Remembers := hr
    obtain ⟨hok, hresult⟩ := loadLeaseDetails_spec hr₁
    rw [hload, if_pos hsame]
    refine ⟨hok, fun t' ht' => ?_⟩
    obtain ⟨hrem, hsel, details, last, rfl⟩ := hresult t' ht'
    exact ⟨hrem, hsel, hsame.symm, ⟨names, hnodup, hmem, hdir, rfl⟩, fun _ => ⟨rfl, rfl⟩,
      fun hnew => absurd hsame hnew⟩
  · have hpools : t₁.pools ≠ [] := by
      intro hnil
      rw [List.map_eq_nil_iff] at hnil
      rw [hdir, hnil] at hne
      exact hne rfl
    rw [if_neg hsame, hdir, List.length_map]
    by_cases hlt : a.poolSelected < names.length
    · have hp := List.getElem?_eq_getElem hlt
      generalize names[a.poolSelected] = p at hp
      have hin := List.mem_of_getElem? hp
      have hpool : t₁.pools[t₁.poolSelected]? = some (p ++ " ".toList) := by
        show (names.map (· ++ " ".toList))[a.poolSelected]? = _
        rw [List.getElem?_map, hp]
        rfl
      let t₂ : TabLease := { t₁ with
        leases := (recordsOf ops p).map (⟨·, p ++ " ".toList⟩)
        leasedAddresses := (recordsOf ops p).map fun r => uint32ToIpv4Address r.address
        poolSelectedLast := some a.poolSelected
        leaseSelected := 0
        leaseSelectedLast := none }
      have hload : t₁.loadLeases cjson a.files a.behind = .ok (0, t₂) :=
        loadLeases_served hc h ((hmem p).mp hin).2 (hfits p hin) hpool hsame
      have hr₂ : t₂.Remembers := nofun
      obtain ⟨hok, hresult⟩ := loadLeaseDetails_spec hr₂
      rw [hload]
      have hfirst := hok.mpr ((Classical.em _).imp_right List.length_pos_iff.mpr)
      refine ⟨iff_of_true hfirst hlt, fun t' ht' => ?_⟩
      obtain ⟨hrem, hsel, details, last, rfl⟩ := hresult t' ht'
      refine ⟨hrem, hsel, rfl, ⟨names, hnodup, hmem, hdir, rfl⟩, fun hold => absurd hold hsame,
        fun _ => ⟨p, ((hmem p).mp hin).1, ((hmem p).mp hin).2, ?_, rfl, rfl⟩⟩
      rw [hdir, List.getElem?_map, hp]
      rfl
    · have hout : t₁.pools.length ≤ t₁.poolSelected := by
        show (names.map (· ++ " ".toList)).length ≤ a.poolSelected
        rw [List.length_map]
        exact Nat.le_of_not_lt hlt
      rw [loadLeases_outside hpools hsame hout]
      exact ⟨iff_of_false nofun hlt, nofun⟩

/-- A tab after a list of refreshes: it remembers the pool of the last one. -/
theorem looks_remember (hc : Lawful cjson) {ops : LeaseLook → List LeaseOp} {looks : List LeaseLook}
    (hserved : ∀ b ∈ looks, b.Served cjson (ops b) ∧ b.directory ≠ []) (hr : t.Remembers)
    (h : looks.foldlM (TabLease.look cjson) t = .ok t') :
    t'.Remembers ∧
      t'.poolSelectedLast = (looks.getLast?.map LeaseLook.poolSelected).or t.poolSelectedLast := by
  induction looks generalizing t with
  | nil =>
    obtain rfl := Except.ok.inj h
    exact ⟨hr, rfl⟩
  | cons b looks ih =>
    rw [List.foldlM_cons] at h
    obtain ⟨t₁, hlook, hrest⟩ := seq_ok.mp h
    obtain ⟨hb, hne⟩ := hserved b (by simp)
    have hstep := (look_served hc hb hne hr).2 t₁ hlook
    obtain ⟨hr', hlast⟩ := ih (fun c hcl => hserved c (by simp [hcl])) hstep.remembers hrest
    refine ⟨hr', ?_⟩
    rw [hlast, hstep.poolSelectedLast, List.getLast?_cons]
    cases looks.getLast? <;> rfl

/-- While the same pool stays selected its leases stay as they were loaded. -/
theorem looks_keep (hc : Lawful cjson) {ops : LeaseLook → List LeaseOp} {looks : List LeaseLook}
    (hserved : ∀ b ∈ looks, b.Served cjson (ops b) ∧ b.directory ≠ []) (hr : t.Remembers)
    (hsel : t.Selected) (hsame : ∀ b ∈ looks, some b.poolSelected = t.poolSelectedLast)
    (h : looks.foldlM (TabLease.look cjson) t = .ok t') :
    t'.leases = t.leases ∧ t'.leasedAddresses = t.leasedAddresses ∧ t'.Selected ∧
      ∀ z ∈ looks.getLast?, t'.Lists z (ops z) := by
  induction looks generalizing t with
  | nil =>
    obtain rfl := Except.ok.inj h
    exact ⟨rfl, rfl, hsel, nofun⟩
  | cons b looks ih =>
    rw [List.foldlM_cons] at h
    obtain ⟨t₁, hlook, hrest⟩ := seq_ok.mp h
    obtain ⟨hb, hne⟩ := hserved b (by simp)
    have hstep := (look_served hc hb hne hr).2 t₁ hlook
    have hpool := hsame b (by simp)
    obtain ⟨hleases, haddresses⟩ := hstep.kept hpool
    have hlast : t₁.poolSelectedLast = t.poolSelectedLast := hstep.poolSelectedLast.trans hpool
    obtain ⟨hl, ha, hs, hmenu⟩ := ih (fun c hcl => hserved c (by simp [hcl])) hstep.remembers
      hstep.selected (fun c hcl => (hsame c (by simp [hcl])).trans hlast.symm) hrest
    refine ⟨hl.trans hleases, ha.trans haddresses, hs, fun z hz => ?_⟩
    cases looks with
    | nil =>
      obtain rfl := Option.some.inj hz
      obtain rfl := Except.ok.inj hrest
      exact hstep.menu
    | cons c looks => exact hmenu z hz

end Look

/-- In every run of the tab, over lease files that `lease.c` has written in the meantime: the tab
shows the records that the pool selected last had, all and in their order, when its entry was
selected, and the details of the selected one; later operations on the file are not seen until
another entry is selected. The menu is the one of the last refresh. The next refresh gets out of
bounds exactly when a new pool is not in the menu or, of the same pool, a lease not in the list. -/
theorem leases_tab_shows_records {cjson : JsonCodec} (hc : Lawful cjson)
    {ops : LeaseLook → List LeaseOp} {before streak : List LeaseLook} {a : LeaseLook} {t : TabLease}
    (hserved : ∀ b ∈ before ++ a :: streak, b.Served cjson (ops b) ∧ b.directory ≠ [])
    (hnew : ∀ b ∈ before.getLast?, b.poolSelected ≠ a.poolSelected)
    (hsame : ∀ b ∈ streak, b.poolSelected = a.poolSelected)
    (h : (before ++ a :: streak).foldlM (TabLease.look cjson) tabLeaseNew = .ok t) :
    ∃ pool, Plain pool ∧ (∃ op ∈ ops a, leaseFile op.pool = leaseFile pool) ∧
      a.directory[a.poolSelected]? = some (leasePath pool) ∧ t.Shows pool (recordsOf (ops a) pool) ∧
      (∀ z ∈ (a :: streak).getLast?, t.Lists z (ops z)) ∧
      ∀ b ops', b.Served cjson ops' → b.directory ≠ [] →
        ((∃ t', t.look cjson b = .ok t') ↔ if b.poolSelected = a.poolSelected
          then recordsOf (ops a) pool = [] ∨ b.leaseSelected < (recordsOf (ops a) pool).length
          else b.poolSelected < b.directory.length) := by
  rw [List.foldlM_append] at h
  obtain ⟨t₀, hbefore, hrest⟩ := seq_ok.mp h
  rw [List.foldlM_cons] at hrest
  obtain ⟨t₁, hlook, hstreak⟩ := seq_ok.mp hrest
  have hr₀ : tabLeaseNew.Remembers := nofun
  obtain ⟨hr, hlast⟩ := looks_remember hc (fun b hb => hserved b (by simp [hb])) hr₀ hbefore
  obtain ⟨ha, hne⟩ := hserved a (by simp)
  have hstep := (look_served hc ha hne hr).2 t₁ hlook
  -- the pool is new to the tab
  obtain ⟨pool, hplain, hin, hpool, hleases, haddresses⟩ := hstep.loaded (by
    rw [hlast]
    cases hz : before.getLast? with
    | none => exact nofun
    | some b => exact fun heq => hnew b hz (Option.some.inj heq).symm)
  have hkeep : ∀ b ∈ streak, some b.poolSelected = t₁.poolSelectedLast := fun b hb => by
    rw [hstep.poolSelectedLast, hsame b hb]
  have hstreak_served : ∀ b ∈ streak, b.Served cjson (ops b) ∧ b.directory ≠ [] :=
    fun b hb => hserved b (by simp [hb])
  obtain ⟨hl, hadd, hsel, hmenu⟩ :=
    looks_keep hc hstreak_served hstep.remembers hstep.selected hkeep hstreak
  obtain ⟨hrem, hlast'⟩ := looks_remember hc hstreak_served hstep.remembers hstreak
  have hlast' : t.poolSelectedLast = some a.poolSelected := by
    rw [hlast', hstep.poolSelectedLast]
    cases hz : streak.getLast? with
    | none => rfl
    | some b => exact congrArg some (hsame b (List.mem_of_getLast? hz))
  rw [hleases] at hl
  refine ⟨pool, hplain, hin, hpool, ⟨hl, hadd.trans haddresses, ?_, ?_⟩, ?_, ?_⟩
  · intro hnil
    exact hsel.blank (by rw [hl, hnil]; rfl)
  · intro hne
    obtain ⟨lease, hlease, hdetails⟩ := hsel.lease (by rw [hl]; simpa using hne)
    rw [hl, List.getElem?_map] at hlease
    obtain ⟨r, hr, rfl⟩ := Option.map_eq_some_iff.mp hlease
    exact ⟨r, hr, hdetails⟩
  · intro z hz
    cases streak with
    | nil =>
      obtain rfl := Option.some.inj hz
      obtain rfl := Except.ok.inj hstreak
      exact hstep.menu
    | cons c streak => exact hmenu z hz
  · intro b ops' hb hne
    rw [(look_served hc hb hne hrem).1, hlast', hl, List.map_eq_nil_iff, List.length_map]
    simp only [Option.some_inj]

/-- A look at the files of the pools `a` and `b` after some operations on them. -/
def lookAfter (ops : List LeaseOp) (pool : Nat) (behind : CString) : LeaseLook where
  poolSelected := pool
  leaseSelected := 0
  directory := [leasePath ['a'], leasePath ['b']]
  files := fun file => (run JsonText.codec (fun _ => none) ops).toOption.bind (· file)
  behind := behind

theorem lookAfter_served {ops : List LeaseOp} (hops : ∀ op ∈ ops, op.pool = ['a'] ∨ op.pool = ['b'])
    (ha : ∃ op ∈ ops, op.pool = ['a']) (hb : ∃ op ∈ ops, op.pool = ['b']) (pool : Nat)
    (behind : CString) :
    (lookAfter ops pool behind).Served JsonText.codec ops := by
  obtain ⟨hpa, hpb⟩ := plain_short
  have hfits : ∀ op ∈ ops, Fits op.pool := by
    intro op hop
    rcases hops op hop with h | h
    · exact h ▸ hpa.fits
    · exact h ▸ hpb.fits
  have hempty : Represents JsonText.codec (fun _ => none) fun _ => [] := fun _ => .inl ⟨rfl, rfl⟩
  obtain ⟨fs, hrun, -⟩ := hempty.run (JsonText.codec_lawful _) ops
  have hfiles : (lookAfter ops pool behind).files = fs := by
    funext file
    simp [lookAfter, hrun, Except.toOption]
  refine ⟨by rw [hrun, hfiles], hfits, ?_, ?_⟩
  · show [leasePath ['a'], leasePath ['b']].Nodup
    decide +kernel
  · intro path
    have hpath : path ∈ (lookAfter ops pool behind).directory ↔
        path = leasePath ['a'] ∨ path = leasePath ['b'] := by simp [lookAfter]
    rw [hfiles, FileSystem.read, run_isSome hrun, hpath]
    constructor
    · intro h
      rcases h with rfl | rfl
      · obtain ⟨op, hop, heq⟩ := ha
        exact ⟨.inr ⟨op, hop, by rw [heq]; rfl⟩, "a.lease".toList, by decide, by decide +kernel⟩
      · obtain ⟨op, hop, heq⟩ := hb
        exact ⟨.inr ⟨op, hop, by rw [heq]; rfl⟩, "b.lease".toList, by decide, by decide +kernel⟩
    · intro h
      obtain ⟨hfile | ⟨op, hop, hsame⟩, name, hname, rfl⟩ := h
      · cases hfile
      · obtain ⟨p, hp, htext, hfile⟩ := listed_plain (hfits op hop) hname hsame
        rw [htext]
        rcases hops op hop with heq | heq
        · rw [heq] at hfile
          exact .inl (by rw [leaseFile_inj hp.fits hp.slash hpa.fits hpa.slash hfile])
        · rw [heq] at hfile
          exact .inr (by rw [leaseFile_inj hp.fits hp.slash hpb.fits hpb.slash hfile])

/-- After a look at the pool `b` the user goes to the pool `a`, whose only lease is removed before
the last refresh. -/
theorem leases_tab_shows_second : ∃ t,
    ([lookAfter threeLeases 1 []] ++ lookAfter threeLeases 0 [] ::
      [lookAfter (threeLeases ++ [.remove 0x0a000005 ['a']]) 0 ['}']]).foldlM
        (TabLease.look JsonText.codec) tabLeaseNew = .ok t ∧ t.Shows ['a'] [secondRecord] := by
  have hok : (([lookAfter threeLeases 1 []] ++ lookAfter threeLeases 0 [] ::
      [lookAfter (threeLeases ++ [.remove 0x0a000005 ['a']]) 0 ['}']]).foldlM
        (TabLease.look JsonText.codec) tabLeaseNew).isOk = true := by decide +kernel
  obtain ⟨t, h⟩ := isOk_eq_true.mp hok
  have hthree := @lookAfter_served threeLeases (by simp [threeLeases, LeaseOp.pool])
    (by simp [threeLeases, LeaseOp.pool]) (by simp [threeLeases, LeaseOp.pool])
  have hfour := @lookAfter_served (threeLeases ++ [.remove 0x0a000005 ['a']])
    (by simp [threeLeases, LeaseOp.pool]) (by simp [threeLeases, LeaseOp.pool])
    (by simp [threeLeases, LeaseOp.pool])
  let ops : LeaseLook → List LeaseOp := fun b =>
    if b.behind = [] then threeLeases else threeLeases ++ [.remove 0x0a000005 ['a']]
  have hserved : ∀ b ∈ [lookAfter threeLeases 1 []] ++ lookAfter threeLeases 0 [] ::
      [lookAfter (threeLeases ++ [.remove 0x0a000005 ['a']]) 0 ['}']],
      b.Served JsonText.codec (ops b) ∧ b.directory ≠ [] := by
    intro b hb
    simp only [List.singleton_append, List.mem_cons, List.not_mem_nil, or_false] at hb
    obtain rfl | rfl | rfl := hb
    · exact ⟨hthree 1 [], List.cons_ne_nil _ _⟩
    · exact ⟨hthree 0 [], List.cons_ne_nil _ _⟩
    · exact ⟨hfour 0 ['}'], List.cons_ne_nil _ _⟩
  obtain ⟨pool, hplain, -, hpool, hshows, -⟩ := leases_tab_shows_records (JsonText.codec_lawful _)
    hserved (by simp [lookAfter]) (by simp [lookAfter]) h
  have hpath : leasePath ['a'] = leasePath pool := Option.some.inj hpool
  obtain rfl : ['a'] = pool := by
    by_contra hne
    exact hplain.ne plain_short.1 hne (congrArg FileId.ofPath hpath)
  have hrecords : recordsOf threeLeases ['a'] = [secondRecord] :=
    recordsOf_plain plain_short.1 threeLeases_plain
  refine ⟨t, h, ?_⟩
  rw [← hrecords]
  exact hshows

end DHCPServer
