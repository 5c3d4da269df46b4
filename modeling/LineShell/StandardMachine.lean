import LineShell.Execution
import LineShell.Toolbox.Programs

/-!
# The standard machine

A machine with the directories that programs expect: a directory of programs, devices, and places
for files. The first three rows of its channel table are the standard streams.
-/

namespace LineShell.StandardMachine

/-- The names of the program files. -/
def programNames : List String :=
  [
    "[", "addpart", "addr2line", "apt", "apt-cache", "apt-cdrom", "apt-config", "apt-get",
    "apt-key", "apt-mark", "ar", "arch", "as", "awk", "b2sum", "base32", "base64", "basename",
    "basenc", "bash", "c++", "c++filt", "c89", "c89-gcc", "c99", "c99-gcc", "c_rehash",
    "captoinfo", "cat", "cc", "chage", "chcon", "chfn", "chgrp", "chmod", "choom", "chown",
    "chrt", "chsh", "cksum", "clear", "cmp", "comm", "corelist", "cp", "cpan", "cpp", "cpp-12",
    "csplit", "cut", "dash", "date", "dd", "deb-systemd-helper", "deb-systemd-invoke", "debconf",
    "debconf-apt-progress", "debconf-communicate", "debconf-copydb", "debconf-escape",
    "debconf-set-selections", "debconf-show", "delpart", "df", "diff", "diff3", "dir",
    "dircolors", "dirname", "dmesg", "dpkg", "dpkg-deb", "dpkg-divert", "dpkg-maintscript-helper",
    "dpkg-query", "dpkg-realpath", "dpkg-split", "dpkg-statoverride", "dpkg-trigger", "du",
    "echo", "egrep", "elfedit", "enc2xs", "encguess", "env", "expand", "expiry", "expr", "factor",
    "faillog", "fallocate", "false", "fgrep", "find", "findmnt", "flock", "fmt", "fold", "g++",
    "gcc", "gcc-12", "gcc-ar", "gcc-nm", "gcc-ranlib", "gcov", "gcov-dump", "gcov-tool",
    "getconf", "getent", "getopt", "gpasswd", "gprof", "grep", "groups", "gunzip", "gzexe",
    "gzip", "h2ph", "h2xs", "hardlink", "head", "hostid", "hostname", "i386", "iconv", "id",
    "infocmp", "infotocap", "install", "instmodsh", "ionice", "ipcmk", "ipcrm", "ipcs",
    "ischroot", "join", "json_pp", "last", "lastb", "lastlog", "ld", "ld.bfd", "ld.so", "ldd",
    "libnetcfg", "link", "linux32", "linux64", "ln", "locale", "localedef", "logger", "login",
    "logname", "ls", "lsblk", "lscpu", "lsipc", "lslocks", "lslogins", "lsmem", "lsns",
    "lto-dump", "mawk", "mcookie", "md5sum", "mesg", "mkdir", "mkfifo", "mknod", "mktemp", "more",
    "mount", "mountpoint", "mv", "namei", "nawk", "newgrp", "nice", "nl", "nm", "nohup", "nproc",
    "nsenter", "numfmt", "objcopy", "objdump", "od", "openssl", "partx", "passwd", "paste",
    "pathchk", "perl", "perl5.36.0", "perlbug", "perldoc", "perlivp", "perlthanks", "piconv",
    "pidof", "pinky", "pl2pm", "pldd", "pod2html", "pod2man", "pod2text", "pod2usage",
    "podchecker", "pr", "printenv", "printf", "prlimit", "prove", "ptar", "ptardiff", "ptargrep",
    "ptx", "pwd", "ranlib", "rbash", "readelf", "readlink", "realpath", "rename.ul", "renice",
    "reset", "resizepart", "rev", "rgrep", "rm", "rmdir", "run-parts", "runcon", "savelog",
    "script", "scriptlive", "scriptreplay", "sdiff", "sed", "seq", "setarch", "setpriv", "setsid",
    "setterm", "sg", "sha1sum", "sha224sum", "sha256sum", "sha384sum", "sha512sum", "shasum",
    "shred", "shuf", "size", "sleep", "sort", "splain", "split", "stat", "stdbuf", "streamzip",
    "strings", "strip", "stty", "su", "sum", "sync", "tabs", "tac", "tail", "tar", "taskset",
    "tee", "tempfile", "test", "tic", "timeout", "toe", "touch", "tput", "tr", "true", "truncate",
    "tset", "tsort", "tty", "tzselect", "uclampset", "umount", "uname", "uncompress", "unexpand",
    "uniq", "unlink", "unshare", "update-alternatives", "users", "utmpdump", "vdir", "wall", "wc",
    "wdctl", "whereis", "which", "which.debianutils", "who", "whoami", "x86_64", "xargs",
    "xsubpp", "yes", "zcat", "zcmp", "zdiff", "zdump", "zegrep", "zfgrep", "zforce", "zgrep",
    "zipdetails", "zless", "zmore", "znew"]

/-- The location that a list of names stands for. -/
def location (names : List String) : Location := names.map Name.text

/-- Directories, parents first. -/
def directories : List (List String) :=
  [["usr"], ["usr", "bin"], ["usr", "sbin"], ["usr", "lib"], ["usr", "local"],
   ["usr", "local", "bin"], ["usr", "share"], ["dev"], ["etc"], ["tmp"], ["home"], ["root"],
   ["var"], ["var", "tmp"], ["opt"], ["srv"], ["mnt"], ["media"], ["run"], ["proc"], ["sys"],
   ["boot"]]

/-- Symbolic links with their targets. -/
def links : List (List String × String) :=
  [(["bin"], "usr/bin"), (["sbin"], "usr/sbin"), (["lib"], "usr/lib"),
   (["usr", "bin", "sh"], "dash")]

/-- Devices. -/
def devices : List (List String × Device) :=
  [(["dev", "null"], .null), (["dev", "full"], .full), (["dev", "zero"], .zero)]

/-- The volume of the standard machine. -/
def volume : Volume :=
  let v := directories.foldl (fun v names => v.create (location names) .newDirectory) Volume.empty
  let v := links.foldl (fun v l => v.create (location l.1) (.link l.2)) v
  let v := devices.foldl (fun v d => v.create (location d.1) (.device d.2)) v
  let v := v.create (location ["etc", "passwd"])
    (.file (octets "root:x:0:0:root:/root:/bin/sh\n") .ofNewFile)
  programNames.foldl
    (fun v name => v.create (location ["usr", "bin", name]) (.program name)) v

/-- The rows of the standard streams. -/
def streams : Streams := ⟨0, 1, 2⟩

/-- The process number of the shell. -/
def shellProcess : Nat := 1000

/-- The machine with some octets on its standard input. -/
def machine (v : Volume) (input : Bytes) (terminal : Option TerminalMode) : Machine :=
  ⟨v, [.tape input 0, .stream .empty, .stream .empty], terminal, [], Stream.capacity⟩

/-- The shell's view of the machine. -/
def host : Host := ⟨Toolbox.programs Toolbox.deepestScript, streams, shellProcess⟩

end LineShell.StandardMachine
