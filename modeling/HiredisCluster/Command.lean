/-
# Parsing a command to find its keys

`redis_parse_cmd` reads a command in the unified protocol, looks its name up in
the command table, and finds the first key, or all keys of the commands that can
be split.  Pointers into the command buffer are offsets here; what is parsed next
is the rest of the buffer.

Embedded source: `command.c` and the table of `cmddef.h`.
-/
import HiredisCluster.World

/-! ## The command table -/

/-- `cmd_keypos`: how the first key is found. -/
inductive KeyMethod where
  | none | unknown | index | keynum
  deriving DecidableEq, Repr

/-- A row of the command table. -/
structure CmdDef where
  type : CmdType
  name : String
  subname : Option String
  firstkeymethod : KeyMethod
  firstkeypos : ℤ
  arity : ℤ
  deriving DecidableEq, Repr

/-- `redis_commands`, in the order of `cmddef.h`. -/
def redisCommands : List CmdDef := [
    ⟨.row 0, "ACL", some "CAT", .none, 0, -2⟩, ⟨.row 1, "ACL", some "DELUSER", .none, 0, -3⟩,
    ⟨.row 2, "ACL", some "DRYRUN", .none, 0, -4⟩, ⟨.row 3, "ACL", some "GENPASS", .none, 0, -2⟩,
    ⟨.row 4, "ACL", some "GETUSER", .none, 0, 3⟩, ⟨.row 5, "ACL", some "HELP", .none, 0, 2⟩,
    ⟨.row 6, "ACL", some "LIST", .none, 0, 2⟩, ⟨.row 7, "ACL", some "LOAD", .none, 0, 2⟩,
    ⟨.row 8, "ACL", some "LOG", .none, 0, -2⟩, ⟨.row 9, "ACL", some "SAVE", .none, 0, 2⟩,
    ⟨.row 10, "ACL", some "SETUSER", .none, 0, -3⟩, ⟨.row 11, "ACL", some "USERS", .none, 0, 2⟩,
    ⟨.row 12, "ACL", some "WHOAMI", .none, 0, 2⟩, ⟨.row 13, "APPEND", none, .index, 1, 3⟩,
    ⟨.row 14, "ASKING", none, .none, 0, 1⟩, ⟨.row 15, "AUTH", none, .none, 0, -2⟩,
    ⟨.row 16, "BGREWRITEAOF", none, .none, 0, 1⟩, ⟨.row 17, "BGSAVE", none, .none, 0, -1⟩,
    ⟨.row 18, "BITCOUNT", none, .index, 1, -2⟩, ⟨.row 19, "BITFIELD", none, .index, 1, -2⟩,
    ⟨.row 20, "BITFIELD_RO", none, .index, 1, -2⟩, ⟨.row 21, "BITOP", none, .index, 2, -4⟩,
    ⟨.row 22, "BITPOS", none, .index, 1, -3⟩, ⟨.row 23, "BLMOVE", none, .index, 1, 6⟩,
    ⟨.row 24, "BLMPOP", none, .keynum, 2, -5⟩, ⟨.row 25, "BLPOP", none, .index, 1, -3⟩,
    ⟨.row 26, "BRPOP", none, .index, 1, -3⟩, ⟨.row 27, "BRPOPLPUSH", none, .index, 1, 4⟩,
    ⟨.row 28, "BZMPOP", none, .keynum, 2, -5⟩, ⟨.row 29, "BZPOPMAX", none, .index, 1, -3⟩,
    ⟨.row 30, "BZPOPMIN", none, .index, 1, -3⟩, ⟨.row 31, "CLIENT", some "CACHING", .none, 0, 3⟩,
    ⟨.row 32, "CLIENT", some "GETNAME", .none, 0, 2⟩,
    ⟨.row 33, "CLIENT", some "GETREDIR", .none, 0, 2⟩,
    ⟨.row 34, "CLIENT", some "HELP", .none, 0, 2⟩, ⟨.row 35, "CLIENT", some "ID", .none, 0, 2⟩,
    ⟨.row 36, "CLIENT", some "INFO", .none, 0, 2⟩, ⟨.row 37, "CLIENT", some "KILL", .none, 0, -3⟩,
    ⟨.row 38, "CLIENT", some "LIST", .none, 0, -2⟩,
    ⟨.row 39, "CLIENT", some "NO-EVICT", .none, 0, 3⟩,
    ⟨.row 40, "CLIENT", some "NO-TOUCH", .none, 0, 3⟩,
    ⟨.row 41, "CLIENT", some "PAUSE", .none, 0, -3⟩,
    ⟨.row 42, "CLIENT", some "REPLY", .none, 0, 3⟩,
    ⟨.row 43, "CLIENT", some "SETINFO", .none, 0, 4⟩,
    ⟨.row 44, "CLIENT", some "SETNAME", .none, 0, 3⟩,
    ⟨.row 45, "CLIENT", some "TRACKING", .none, 0, -3⟩,
    ⟨.row 46, "CLIENT", some "TRACKINGINFO", .none, 0, 2⟩,
    ⟨.row 47, "CLIENT", some "UNBLOCK", .none, 0, -3⟩,
    ⟨.row 48, "CLIENT", some "UNPAUSE", .none, 0, 2⟩,
    ⟨.row 49, "CLUSTER", some "ADDSLOTS", .none, 0, -3⟩,
    ⟨.row 50, "CLUSTER", some "ADDSLOTSRANGE", .none, 0, -4⟩,
    ⟨.row 51, "CLUSTER", some "BUMPEPOCH", .none, 0, 2⟩,
    ⟨.row 52, "CLUSTER", some "COUNT-FAILURE-REPORTS", .none, 0, 3⟩,
    ⟨.row 53, "CLUSTER", some "COUNTKEYSINSLOT", .none, 0, 3⟩,
    ⟨.row 54, "CLUSTER", some "DELSLOTS", .none, 0, -3⟩,
    ⟨.row 55, "CLUSTER", some "DELSLOTSRANGE", .none, 0, -4⟩,
    ⟨.row 56, "CLUSTER", some "FAILOVER", .none, 0, -2⟩,
    ⟨.row 57, "CLUSTER", some "FLUSHSLOTS", .none, 0, 2⟩,
    ⟨.row 58, "CLUSTER", some "FORGET", .none, 0, 3⟩,
    ⟨.row 59, "CLUSTER", some "GETKEYSINSLOT", .none, 0, 4⟩,
    ⟨.row 60, "CLUSTER", some "HELP", .none, 0, 2⟩, ⟨.row 61, "CLUSTER", some "INFO", .none, 0, 2⟩,
    ⟨.row 62, "CLUSTER", some "KEYSLOT", .none, 0, 3⟩,
    ⟨.row 63, "CLUSTER", some "LINKS", .none, 0, 2⟩,
    ⟨.row 64, "CLUSTER", some "MEET", .none, 0, -4⟩,
    ⟨.row 65, "CLUSTER", some "MYID", .none, 0, 2⟩,
    ⟨.row 66, "CLUSTER", some "MYSHARDID", .none, 0, 2⟩,
    ⟨.row 67, "CLUSTER", some "NODES", .none, 0, 2⟩,
    ⟨.row 68, "CLUSTER", some "REPLICAS", .none, 0, 3⟩,
    ⟨.row 69, "CLUSTER", some "REPLICATE", .none, 0, 3⟩,
    ⟨.row 70, "CLUSTER", some "RESET", .none, 0, -2⟩,
    ⟨.row 71, "CLUSTER", some "SAVECONFIG", .none, 0, 2⟩,
    ⟨.row 72, "CLUSTER", some "SET-CONFIG-EPOCH", .none, 0, 3⟩,
    ⟨.row 73, "CLUSTER", some "SETSLOT", .none, 0, -4⟩,
    ⟨.row 74, "CLUSTER", some "SHARDS", .none, 0, 2⟩,
    ⟨.row 75, "CLUSTER", some "SLAVES", .none, 0, 3⟩,
    ⟨.row 76, "CLUSTER", some "SLOTS", .none, 0, 2⟩,
    ⟨.row 77, "COMMAND", some "COUNT", .none, 0, 2⟩,
    ⟨.row 78, "COMMAND", some "DOCS", .none, 0, -2⟩,
    ⟨.row 79, "COMMAND", some "GETKEYS", .none, 0, -3⟩,
    ⟨.row 80, "COMMAND", some "GETKEYSANDFLAGS", .none, 0, -3⟩,
    ⟨.row 81, "COMMAND", some "HELP", .none, 0, 2⟩,
    ⟨.row 82, "COMMAND", some "INFO", .none, 0, -2⟩,
    ⟨.row 83, "COMMAND", some "LIST", .none, 0, -2⟩, ⟨.row 84, "CONFIG", some "GET", .none, 0, -3⟩,
    ⟨.row 85, "CONFIG", some "HELP", .none, 0, 2⟩,
    ⟨.row 86, "CONFIG", some "RESETSTAT", .none, 0, 2⟩,
    ⟨.row 87, "CONFIG", some "REWRITE", .none, 0, 2⟩,
    ⟨.row 88, "CONFIG", some "SET", .none, 0, -4⟩, ⟨.row 89, "COPY", none, .index, 1, -3⟩,
    ⟨.row 90, "DBSIZE", none, .none, 0, 1⟩, ⟨.row 91, "DEBUG", none, .none, 0, -2⟩,
    ⟨.row 92, "DECR", none, .index, 1, 2⟩, ⟨.row 93, "DECRBY", none, .index, 1, 3⟩,
    ⟨.del, "DEL", none, .index, 1, -2⟩, ⟨.row 95, "DISCARD", none, .none, 0, 1⟩,
    ⟨.row 96, "DUMP", none, .index, 1, 2⟩, ⟨.row 97, "ECHO", none, .none, 0, 2⟩,
    ⟨.row 98, "EVAL", none, .keynum, 2, -3⟩, ⟨.row 99, "EVALSHA", none, .keynum, 2, -3⟩,
    ⟨.row 100, "EVALSHA_RO", none, .keynum, 2, -3⟩, ⟨.row 101, "EVAL_RO", none, .keynum, 2, -3⟩,
    ⟨.row 102, "EXEC", none, .none, 0, 1⟩, ⟨.exists, "EXISTS", none, .index, 1, -2⟩,
    ⟨.row 104, "EXPIRE", none, .index, 1, -3⟩, ⟨.row 105, "EXPIREAT", none, .index, 1, -3⟩,
    ⟨.row 106, "EXPIRETIME", none, .index, 1, 2⟩, ⟨.row 107, "FAILOVER", none, .none, 0, -1⟩,
    ⟨.row 108, "FCALL", none, .keynum, 2, -3⟩, ⟨.row 109, "FCALL_RO", none, .keynum, 2, -3⟩,
    ⟨.row 110, "FLUSHALL", none, .none, 0, -1⟩, ⟨.row 111, "FLUSHDB", none, .none, 0, -1⟩,
    ⟨.row 112, "FUNCTION", some "DELETE", .none, 0, 3⟩,
    ⟨.row 113, "FUNCTION", some "DUMP", .none, 0, 2⟩,
    ⟨.row 114, "FUNCTION", some "FLUSH", .none, 0, -2⟩,
    ⟨.row 115, "FUNCTION", some "HELP", .none, 0, 2⟩,
    ⟨.row 116, "FUNCTION", some "KILL", .none, 0, 2⟩,
    ⟨.row 117, "FUNCTION", some "LIST", .none, 0, -2⟩,
    ⟨.row 118, "FUNCTION", some "LOAD", .none, 0, -3⟩,
    ⟨.row 119, "FUNCTION", some "RESTORE", .none, 0, -3⟩,
    ⟨.row 120, "FUNCTION", some "STATS", .none, 0, 2⟩, ⟨.row 121, "GEOADD", none, .index, 1, -5⟩,
    ⟨.row 122, "GEODIST", none, .index, 1, -4⟩, ⟨.row 123, "GEOHASH", none, .index, 1, -2⟩,
    ⟨.row 124, "GEOPOS", none, .index, 1, -2⟩, ⟨.row 125, "GEORADIUS", none, .index, 1, -6⟩,
    ⟨.row 126, "GEORADIUSBYMEMBER", none, .index, 1, -5⟩,
    ⟨.row 127, "GEORADIUSBYMEMBER_RO", none, .index, 1, -5⟩,
    ⟨.row 128, "GEORADIUS_RO", none, .index, 1, -6⟩, ⟨.row 129, "GEOSEARCH", none, .index, 1, -7⟩,
    ⟨.row 130, "GEOSEARCHSTORE", none, .index, 1, -8⟩, ⟨.row 131, "GET", none, .index, 1, 2⟩,
    ⟨.row 132, "GETBIT", none, .index, 1, 3⟩, ⟨.row 133, "GETDEL", none, .index, 1, 2⟩,
    ⟨.row 134, "GETEX", none, .index, 1, -2⟩, ⟨.row 135, "GETRANGE", none, .index, 1, 4⟩,
    ⟨.row 136, "GETSET", none, .index, 1, 3⟩, ⟨.row 137, "HDEL", none, .index, 1, -3⟩,
    ⟨.row 138, "HELLO", none, .none, 0, -1⟩, ⟨.row 139, "HEXISTS", none, .index, 1, 3⟩,
    ⟨.row 140, "HGET", none, .index, 1, 3⟩, ⟨.row 141, "HGETALL", none, .index, 1, 2⟩,
    ⟨.row 142, "HINCRBY", none, .index, 1, 4⟩, ⟨.row 143, "HINCRBYFLOAT", none, .index, 1, 4⟩,
    ⟨.row 144, "HKEYS", none, .index, 1, 2⟩, ⟨.row 145, "HLEN", none, .index, 1, 2⟩,
    ⟨.row 146, "HMGET", none, .index, 1, -3⟩, ⟨.row 147, "HMSET", none, .index, 1, -4⟩,
    ⟨.row 148, "HRANDFIELD", none, .index, 1, -2⟩, ⟨.row 149, "HSCAN", none, .index, 1, -3⟩,
    ⟨.row 150, "HSET", none, .index, 1, -4⟩, ⟨.row 151, "HSETNX", none, .index, 1, 4⟩,
    ⟨.row 152, "HSTRLEN", none, .index, 1, 3⟩, ⟨.row 153, "HVALS", none, .index, 1, 2⟩,
    ⟨.row 154, "INCR", none, .index, 1, 2⟩, ⟨.row 155, "INCRBY", none, .index, 1, 3⟩,
    ⟨.row 156, "INCRBYFLOAT", none, .index, 1, 3⟩, ⟨.row 157, "INFO", none, .none, 0, -1⟩,
    ⟨.row 158, "KEYS", none, .none, 0, 2⟩, ⟨.row 159, "LASTSAVE", none, .none, 0, 1⟩,
    ⟨.row 160, "LATENCY", some "DOCTOR", .none, 0, 2⟩,
    ⟨.row 161, "LATENCY", some "GRAPH", .none, 0, 3⟩,
    ⟨.row 162, "LATENCY", some "HELP", .none, 0, 2⟩,
    ⟨.row 163, "LATENCY", some "HISTOGRAM", .none, 0, -2⟩,
    ⟨.row 164, "LATENCY", some "HISTORY", .none, 0, 3⟩,
    ⟨.row 165, "LATENCY", some "LATEST", .none, 0, 2⟩,
    ⟨.row 166, "LATENCY", some "RESET", .none, 0, -2⟩, ⟨.row 167, "LCS", none, .index, 1, -3⟩,
    ⟨.row 168, "LINDEX", none, .index, 1, 3⟩, ⟨.row 169, "LINSERT", none, .index, 1, 5⟩,
    ⟨.row 170, "LLEN", none, .index, 1, 2⟩, ⟨.row 171, "LMOVE", none, .index, 1, 5⟩,
    ⟨.row 172, "LMPOP", none, .keynum, 1, -4⟩, ⟨.row 173, "LOLWUT", none, .none, 0, -1⟩,
    ⟨.row 174, "LPOP", none, .index, 1, -2⟩, ⟨.row 175, "LPOS", none, .index, 1, -3⟩,
    ⟨.row 176, "LPUSH", none, .index, 1, -3⟩, ⟨.row 177, "LPUSHX", none, .index, 1, -3⟩,
    ⟨.row 178, "LRANGE", none, .index, 1, 4⟩, ⟨.row 179, "LREM", none, .index, 1, 4⟩,
    ⟨.row 180, "LSET", none, .index, 1, 4⟩, ⟨.row 181, "LTRIM", none, .index, 1, 4⟩,
    ⟨.row 182, "MEMORY", some "DOCTOR", .none, 0, 2⟩,
    ⟨.row 183, "MEMORY", some "HELP", .none, 0, 2⟩,
    ⟨.row 184, "MEMORY", some "MALLOC-STATS", .none, 0, 2⟩,
    ⟨.row 185, "MEMORY", some "PURGE", .none, 0, 2⟩,
    ⟨.row 186, "MEMORY", some "STATS", .none, 0, 2⟩,
    ⟨.row 187, "MEMORY", some "USAGE", .index, 2, -3⟩, ⟨.mget, "MGET", none, .index, 1, -2⟩,
    ⟨.migrate, "MIGRATE", none, .index, 3, -6⟩, ⟨.row 190, "MODULE", some "HELP", .none, 0, 2⟩,
    ⟨.row 191, "MODULE", some "LIST", .none, 0, 2⟩,
    ⟨.row 192, "MODULE", some "LOAD", .none, 0, -3⟩,
    ⟨.row 193, "MODULE", some "LOADEX", .none, 0, -3⟩,
    ⟨.row 194, "MODULE", some "UNLOAD", .none, 0, 3⟩, ⟨.row 195, "MONITOR", none, .none, 0, 1⟩,
    ⟨.row 196, "MOVE", none, .index, 1, 3⟩, ⟨.mset, "MSET", none, .index, 1, -3⟩,
    ⟨.row 198, "MSETNX", none, .index, 1, -3⟩, ⟨.row 199, "MULTI", none, .none, 0, 1⟩,
    ⟨.row 200, "OBJECT", some "ENCODING", .index, 2, 3⟩,
    ⟨.row 201, "OBJECT", some "FREQ", .index, 2, 3⟩,
    ⟨.row 202, "OBJECT", some "HELP", .none, 0, 2⟩,
    ⟨.row 203, "OBJECT", some "IDLETIME", .index, 2, 3⟩,
    ⟨.row 204, "OBJECT", some "REFCOUNT", .index, 2, 3⟩, ⟨.row 205, "PERSIST", none, .index, 1, 2⟩,
    ⟨.row 206, "PEXPIRE", none, .index, 1, -3⟩, ⟨.row 207, "PEXPIREAT", none, .index, 1, -3⟩,
    ⟨.row 208, "PEXPIRETIME", none, .index, 1, 2⟩, ⟨.row 209, "PFADD", none, .index, 1, -2⟩,
    ⟨.row 210, "PFCOUNT", none, .index, 1, -2⟩, ⟨.row 211, "PFDEBUG", none, .index, 2, 3⟩,
    ⟨.row 212, "PFMERGE", none, .index, 1, -2⟩, ⟨.row 213, "PFSELFTEST", none, .none, 0, 1⟩,
    ⟨.row 214, "PING", none, .none, 0, -1⟩, ⟨.row 215, "PSETEX", none, .index, 1, 4⟩,
    ⟨.row 216, "PSUBSCRIBE", none, .none, 0, -2⟩, ⟨.row 217, "PSYNC", none, .none, 0, -3⟩,
    ⟨.row 218, "PTTL", none, .index, 1, 2⟩, ⟨.row 219, "PUBLISH", none, .none, 0, 3⟩,
    ⟨.row 220, "PUBSUB", some "CHANNELS", .none, 0, -2⟩,
    ⟨.row 221, "PUBSUB", some "HELP", .none, 0, 2⟩,
    ⟨.row 222, "PUBSUB", some "NUMPAT", .none, 0, 2⟩,
    ⟨.row 223, "PUBSUB", some "NUMSUB", .none, 0, -2⟩,
    ⟨.row 224, "PUBSUB", some "SHARDCHANNELS", .none, 0, -2⟩,
    ⟨.row 225, "PUBSUB", some "SHARDNUMSUB", .none, 0, -2⟩,
    ⟨.row 226, "PUNSUBSCRIBE", none, .none, 0, -1⟩, ⟨.row 227, "QUIT", none, .none, 0, -1⟩,
    ⟨.row 228, "RANDOMKEY", none, .none, 0, 1⟩, ⟨.row 229, "READONLY", none, .none, 0, 1⟩,
    ⟨.row 230, "READWRITE", none, .none, 0, 1⟩, ⟨.row 231, "RENAME", none, .index, 1, 3⟩,
    ⟨.row 232, "RENAMENX", none, .index, 1, 3⟩, ⟨.row 233, "REPLCONF", none, .none, 0, -1⟩,
    ⟨.row 234, "REPLICAOF", none, .none, 0, 3⟩, ⟨.row 235, "RESET", none, .none, 0, 1⟩,
    ⟨.row 236, "RESTORE", none, .index, 1, -4⟩, ⟨.row 237, "RESTORE-ASKING", none, .index, 1, -4⟩,
    ⟨.row 238, "ROLE", none, .none, 0, 1⟩, ⟨.row 239, "RPOP", none, .index, 1, -2⟩,
    ⟨.row 240, "RPOPLPUSH", none, .index, 1, 3⟩, ⟨.row 241, "RPUSH", none, .index, 1, -3⟩,
    ⟨.row 242, "RPUSHX", none, .index, 1, -3⟩, ⟨.row 243, "SADD", none, .index, 1, -3⟩,
    ⟨.row 244, "SAVE", none, .none, 0, 1⟩, ⟨.row 245, "SCAN", none, .none, 0, -2⟩,
    ⟨.row 246, "SCARD", none, .index, 1, 2⟩, ⟨.row 247, "SCRIPT", some "DEBUG", .none, 0, 3⟩,
    ⟨.row 248, "SCRIPT", some "EXISTS", .none, 0, -3⟩,
    ⟨.row 249, "SCRIPT", some "FLUSH", .none, 0, -2⟩,
    ⟨.row 250, "SCRIPT", some "HELP", .none, 0, 2⟩, ⟨.row 251, "SCRIPT", some "KILL", .none, 0, 2⟩,
    ⟨.row 252, "SCRIPT", some "LOAD", .none, 0, 3⟩, ⟨.row 253, "SDIFF", none, .index, 1, -2⟩,
    ⟨.row 254, "SDIFFSTORE", none, .index, 1, -3⟩, ⟨.row 255, "SELECT", none, .none, 0, 2⟩,
    ⟨.row 256, "SENTINEL", some "CKQUORUM", .none, 0, 3⟩,
    ⟨.row 257, "SENTINEL", some "CONFIG", .none, 0, -4⟩,
    ⟨.row 258, "SENTINEL", some "DEBUG", .none, 0, -2⟩,
    ⟨.row 259, "SENTINEL", some "FAILOVER", .none, 0, 3⟩,
    ⟨.row 260, "SENTINEL", some "FLUSHCONFIG", .none, 0, 2⟩,
    ⟨.row 261, "SENTINEL", some "GET-MASTER-ADDR-BY-NAME", .none, 0, 3⟩,
    ⟨.row 262, "SENTINEL", some "HELP", .none, 0, 2⟩,
    ⟨.row 263, "SENTINEL", some "INFO-CACHE", .none, 0, -3⟩,
    ⟨.row 264, "SENTINEL", some "IS-MASTER-DOWN-BY-ADDR", .none, 0, 6⟩,
    ⟨.row 265, "SENTINEL", some "MASTER", .none, 0, 3⟩,
    ⟨.row 266, "SENTINEL", some "MASTERS", .none, 0, 2⟩,
    ⟨.row 267, "SENTINEL", some "MONITOR", .none, 0, 6⟩,
    ⟨.row 268, "SENTINEL", some "MYID", .none, 0, 2⟩,
    ⟨.row 269, "SENTINEL", some "PENDING-SCRIPTS", .none, 0, 2⟩,
    ⟨.row 270, "SENTINEL", some "REMOVE", .none, 0, 3⟩,
    ⟨.row 271, "SENTINEL", some "REPLICAS", .none, 0, 3⟩,
    ⟨.row 272, "SENTINEL", some "RESET", .none, 0, 3⟩,
    ⟨.row 273, "SENTINEL", some "SENTINELS", .none, 0, 3⟩,
    ⟨.row 274, "SENTINEL", some "SET", .none, 0, -5⟩,
    ⟨.row 275, "SENTINEL", some "SIMULATE-FAILURE", .none, 0, -3⟩,
    ⟨.row 276, "SENTINEL", some "SLAVES", .none, 0, 3⟩, ⟨.row 277, "SET", none, .index, 1, -3⟩,
    ⟨.row 278, "SETBIT", none, .index, 1, 4⟩, ⟨.row 279, "SETEX", none, .index, 1, 4⟩,
    ⟨.row 280, "SETNX", none, .index, 1, 3⟩, ⟨.row 281, "SETRANGE", none, .index, 1, 4⟩,
    ⟨.row 282, "SHUTDOWN", none, .none, 0, -1⟩, ⟨.row 283, "SINTER", none, .index, 1, -2⟩,
    ⟨.row 284, "SINTERCARD", none, .keynum, 1, -3⟩, ⟨.row 285, "SINTERSTORE", none, .index, 1, -3⟩,
    ⟨.row 286, "SISMEMBER", none, .index, 1, 3⟩, ⟨.row 287, "SLAVEOF", none, .none, 0, 3⟩,
    ⟨.row 288, "SLOWLOG", some "GET", .none, 0, -2⟩,
    ⟨.row 289, "SLOWLOG", some "HELP", .none, 0, 2⟩,
    ⟨.row 290, "SLOWLOG", some "LEN", .none, 0, 2⟩,
    ⟨.row 291, "SLOWLOG", some "RESET", .none, 0, 2⟩, ⟨.row 292, "SMEMBERS", none, .index, 1, 2⟩,
    ⟨.row 293, "SMISMEMBER", none, .index, 1, -3⟩, ⟨.row 294, "SMOVE", none, .index, 1, 4⟩,
    ⟨.row 295, "SORT", none, .index, 1, -2⟩, ⟨.row 296, "SORT_RO", none, .index, 1, -2⟩,
    ⟨.row 297, "SPOP", none, .index, 1, -2⟩, ⟨.row 298, "SPUBLISH", none, .index, 1, 3⟩,
    ⟨.row 299, "SRANDMEMBER", none, .index, 1, -2⟩, ⟨.row 300, "SREM", none, .index, 1, -3⟩,
    ⟨.row 301, "SSCAN", none, .index, 1, -3⟩, ⟨.row 302, "SSUBSCRIBE", none, .index, 1, -2⟩,
    ⟨.row 303, "STRLEN", none, .index, 1, 2⟩, ⟨.row 304, "SUBSCRIBE", none, .none, 0, -2⟩,
    ⟨.row 305, "SUBSTR", none, .index, 1, 4⟩, ⟨.row 306, "SUNION", none, .index, 1, -2⟩,
    ⟨.row 307, "SUNIONSTORE", none, .index, 1, -3⟩,
    ⟨.row 308, "SUNSUBSCRIBE", none, .index, 1, -1⟩, ⟨.row 309, "SWAPDB", none, .none, 0, 3⟩,
    ⟨.row 310, "SYNC", none, .none, 0, 1⟩, ⟨.row 311, "TIME", none, .none, 0, 1⟩,
    ⟨.row 312, "TOUCH", none, .index, 1, -2⟩, ⟨.row 313, "TTL", none, .index, 1, 2⟩,
    ⟨.row 314, "TYPE", none, .index, 1, 2⟩, ⟨.row 315, "UNLINK", none, .index, 1, -2⟩,
    ⟨.row 316, "UNSUBSCRIBE", none, .none, 0, -1⟩, ⟨.row 317, "UNWATCH", none, .none, 0, 1⟩,
    ⟨.row 318, "WAIT", none, .none, 0, 3⟩, ⟨.row 319, "WAITAOF", none, .none, 0, 4⟩,
    ⟨.row 320, "WATCH", none, .index, 1, -2⟩, ⟨.row 321, "XACK", none, .index, 1, -4⟩,
    ⟨.row 322, "XADD", none, .index, 1, -5⟩, ⟨.row 323, "XAUTOCLAIM", none, .index, 1, -6⟩,
    ⟨.row 324, "XCLAIM", none, .index, 1, -6⟩, ⟨.row 325, "XDEL", none, .index, 1, -3⟩,
    ⟨.row 326, "XGROUP", some "CREATE", .index, 2, -5⟩,
    ⟨.row 327, "XGROUP", some "CREATECONSUMER", .index, 2, 5⟩,
    ⟨.row 328, "XGROUP", some "DELCONSUMER", .index, 2, 5⟩,
    ⟨.row 329, "XGROUP", some "DESTROY", .index, 2, 4⟩,
    ⟨.row 330, "XGROUP", some "HELP", .none, 0, 2⟩,
    ⟨.row 331, "XGROUP", some "SETID", .index, 2, -5⟩,
    ⟨.row 332, "XINFO", some "CONSUMERS", .index, 2, 4⟩,
    ⟨.row 333, "XINFO", some "GROUPS", .index, 2, 3⟩,
    ⟨.row 334, "XINFO", some "HELP", .none, 0, 2⟩,
    ⟨.row 335, "XINFO", some "STREAM", .index, 2, -3⟩, ⟨.row 336, "XLEN", none, .index, 1, 2⟩,
    ⟨.row 337, "XPENDING", none, .index, 1, -3⟩, ⟨.row 338, "XRANGE", none, .index, 1, -4⟩,
    ⟨.xread, "XREAD", none, .unknown, 0, -4⟩, ⟨.xreadgroup, "XREADGROUP", none, .unknown, 0, -7⟩,
    ⟨.row 341, "XREVRANGE", none, .index, 1, -4⟩, ⟨.row 342, "XSETID", none, .index, 1, -3⟩,
    ⟨.row 343, "XTRIM", none, .index, 1, -4⟩, ⟨.row 344, "ZADD", none, .index, 1, -4⟩,
    ⟨.row 345, "ZCARD", none, .index, 1, 2⟩, ⟨.row 346, "ZCOUNT", none, .index, 1, 4⟩,
    ⟨.row 347, "ZDIFF", none, .keynum, 1, -3⟩, ⟨.row 348, "ZDIFFSTORE", none, .index, 1, -4⟩,
    ⟨.row 349, "ZINCRBY", none, .index, 1, 4⟩, ⟨.row 350, "ZINTER", none, .keynum, 1, -3⟩,
    ⟨.row 351, "ZINTERCARD", none, .keynum, 1, -3⟩, ⟨.row 352, "ZINTERSTORE", none, .index, 1, -4⟩,
    ⟨.row 353, "ZLEXCOUNT", none, .index, 1, 4⟩, ⟨.row 354, "ZMPOP", none, .keynum, 1, -4⟩,
    ⟨.row 355, "ZMSCORE", none, .index, 1, -3⟩, ⟨.row 356, "ZPOPMAX", none, .index, 1, -2⟩,
    ⟨.row 357, "ZPOPMIN", none, .index, 1, -2⟩, ⟨.row 358, "ZRANDMEMBER", none, .index, 1, -2⟩,
    ⟨.row 359, "ZRANGE", none, .index, 1, -4⟩, ⟨.row 360, "ZRANGEBYLEX", none, .index, 1, -4⟩,
    ⟨.row 361, "ZRANGEBYSCORE", none, .index, 1, -4⟩,
    ⟨.row 362, "ZRANGESTORE", none, .index, 1, -5⟩, ⟨.row 363, "ZRANK", none, .index, 1, -3⟩,
    ⟨.row 364, "ZREM", none, .index, 1, -3⟩, ⟨.row 365, "ZREMRANGEBYLEX", none, .index, 1, 4⟩,
    ⟨.row 366, "ZREMRANGEBYRANK", none, .index, 1, 4⟩,
    ⟨.row 367, "ZREMRANGEBYSCORE", none, .index, 1, 4⟩,
    ⟨.row 368, "ZREVRANGE", none, .index, 1, -4⟩,
    ⟨.row 369, "ZREVRANGEBYLEX", none, .index, 1, -4⟩,
    ⟨.row 370, "ZREVRANGEBYSCORE", none, .index, 1, -4⟩,
    ⟨.row 371, "ZREVRANK", none, .index, 1, -3⟩, ⟨.row 372, "ZSCAN", none, .index, 1, -3⟩,
    ⟨.row 373, "ZSCORE", none, .index, 1, 3⟩, ⟨.row 374, "ZUNION", none, .keynum, 1, -3⟩,
    ⟨.row 375, "ZUNIONSTORE", none, .index, 1, -4⟩]

/-- `to_upper`. -/
def toUpper (s : Bytes) : Bytes := s.map fun b => if 97 ≤ b ∧ b ≤ 122 then b - 32 else b

/-- `strncmp` of a C string with the bytes of `b`: it ends at a difference, at a
NUL in both, or after the length of `b`. -/
def strncmp : Bytes → Bytes → Ordering
  | _, [] => .eq
  | [], b :: _ => if b = 0 then .eq else .lt
  | a :: as, b :: bs => if a = b then (if a = 0 then .eq else strncmp as bs) else compare a b

/-- A table entry against an argument; an entry that is longer comes after. -/
def compareName (name : Bytes) (arg : Bytes) : Ordering :=
  match strncmp name arg with
  | .eq => if name.length > arg.length then .gt else .eq
  | o => o

/-- The binary search of `redis_lookup_cmd` in a table whose rows have a name and maybe a
subname, between `left` and `right` (excluded). -/
def lookupLoop {ρ : Type} (name : ρ → Bytes) (subname : ρ → Option Bytes) (table : List ρ)
    (cmd : Bytes) (subcmd : Option Bytes) : ℕ → ℕ → ℕ → Option ρ
  | 0, _, _ => none
  | fuel + 1, left, right =>
    if left < right then
      let i := (left + (right - 1)) / 2
      match table[i]? with
      | none => none
      | some c =>
        match compareName (name c) cmd, subname c with
        | .lt, _ => lookupLoop name subname table cmd subcmd fuel (i + 1) right
        | .gt, _ => lookupLoop name subname table cmd subcmd fuel left i
        | .eq, none => some c
        | .eq, some subname' =>
          match subcmd with
          | none => none
          | some sub =>
            match compareName subname' sub with
            | .lt => lookupLoop name subname table cmd subcmd fuel (i + 1) right
            | .gt => lookupLoop name subname table cmd subcmd fuel left i
            | .eq => some c
    else none

/-- `redis_lookup_cmd`. -/
def redisLookupCmd (arg0 : Bytes) (arg1 : Option Bytes) : Option CmdDef :=
  lookupLoop (fun c : CmdDef => ascii c.name) (fun c => c.subname.map ascii) redisCommands
    (toUpper arg0) (arg1.map toUpper) redisCommands.length 0 redisCommands.length

/-! ## Scanning -/

/-- A place in the buffer: its offset, and what follows. -/
structure Cursor where
  pos : ℕ
  rest : Bytes

/-- Step over one given byte. -/
def Cursor.expect (c : Cursor) (b : UInt8) : Option Cursor :=
  match c.rest with
  | [] => none
  | x :: xs => if x = b then some ⟨c.pos + 1, xs⟩ else none

/-- A number in `uint32_t` arithmetic, possibly without any digit. -/
def parseUint (acc pos : ℕ) : Bytes → ℕ × Cursor
  | [] => (acc, ⟨pos, []⟩)
  | b :: rest =>
    if isDigit b then parseUint ((acc * 10 + digitVal b) % 2 ^ 32) (pos + 1) rest
    else (acc, ⟨pos, b :: rest⟩)

/-- An argument, as a range of the buffer. -/
structure Arg where
  start : ℕ
  len : ℕ
  deriving DecidableEq, Repr

/-- The bytes of an argument. -/
def Arg.bytes (buf : Bytes) (a : Arg) : Bytes := (buf.drop a.start).take a.len

/-- Step over a line end. -/
def Cursor.crlf (c : Cursor) : Option Cursor :=
  match c.expect 13 with
  | none => none
  | some c => c.expect 10

/-- `redis_parse_bulk`.  On an error the argument is known if its header could be
read. -/
def redisParseBulk (c : Cursor) : Except (Option Arg) (Arg × Cursor) :=
  match c.expect 36 with
  | none => .error none
  | some c =>
    let len := parseUint 0 c.pos c.rest
    match len.2.crlf with
    | none => .error none
    | some c =>
      match Cursor.crlf ⟨c.pos + len.1, c.rest.drop len.1⟩ with
      | none => .error (some ⟨c.pos, len.1⟩)
      | some c' => .ok (⟨c.pos, len.1⟩, c')

/-! ## Errors -/

/-- What the error text of a failed parse is about. -/
inductive ParseError where
  | keys (info : CmdDef)
  | unknown (arg0 : Bytes) (arg1 : Option Bytes)
  | malformed
  deriving DecidableEq, Repr

/-- `errstr`, with room for 99 characters. -/
def ParseError.text : ParseError → Bytes
  | .keys info =>
    (match info.subname with
      | some sub => ascii "Failed to find keys of command " ++ ascii info.name ++ 32 :: ascii sub
      | none => ascii "Failed to find keys of command " ++ ascii info.name).take 99
  | .unknown arg0 (some arg1) =>
    (ascii "Unknown command " ++ cstr arg0 ++ 32 :: cstr arg1).take 99
  | .unknown arg0 none => (ascii "Unknown command " ++ cstr arg0).take 99
  | .malformed => ascii "Command parse error"

/-! ## Finding the keys -/

/-- What `redis_parse_cmd` finds out about a command. -/
structure Parsed where
  type : CmdType
  narg : ℕ
  keys : List KeyPos
  deriving DecidableEq, Repr

/-- `push_keypos`. -/
def Arg.keyPos (a : Arg) : KeyPos := { start := a.start, stop := a.start + a.len }

/-- The bytes of a key. -/
def KeyPos.bytes (buf : Bytes) (k : KeyPos) : Bytes := (buf.drop k.start).take (k.stop - k.start)

/-- `redis_argx`: commands of keys. -/
def redisArgx (t : CmdType) : Bool := t = .exists || t = .mget || t = .del

/-- `redis_argkvx`: commands of key-value pairs. -/
def redisArgkvx (t : CmdType) : Bool := t = .mset

/-- `strncasecmp(keyword, arg, arglen) == 0`. -/
def sameWord (keyword : String) (arg : Bytes) : Bool :=
  strncmp (toUpper (ascii keyword)) (toUpper arg) = .eq

/-- The search for a keyword, after which the first key stands. -/
def parseAfterKeyword (buf : Bytes) (info : CmdDef) (narg : ℕ) (keyword : String) (startfrom : ℤ) :
    ℕ → ℤ → Cursor → Except ParseError Parsed
  | 0, _, _ => .error (.keys info)
  | n + 1, argidx, c =>
    match redisParseBulk c with
    | .error _ => .error (.keys info)
    | .ok (arg, c) =>
      if argidx < startfrom then
        parseAfterKeyword buf info narg keyword startfrom n (argidx + 1) c
      else if sameWord keyword (arg.bytes buf) then
        match redisParseBulk c with
        | .error _ => .error (.keys info)
        | .ok (key, _) => .ok ⟨info.type, narg, [key.keyPos]⟩
      else parseAfterKeyword buf info narg keyword startfrom n (argidx + 1) c

/-- Skip arguments up to the one with the given distance. -/
def skipArgs (info : CmdDef) : ℕ → Arg → Cursor → Except ParseError (Arg × Cursor)
  | 0, arg, c => .ok (arg, c)
  | n + 1, _, c =>
    match redisParseBulk c with
    | .error _ => .error (.keys info)
    | .ok (arg, c) => skipArgs info n arg c

/-- The arguments from index `i` on: all of them, or every second, are keys. -/
def parseMoreKeys (info : CmdDef) : ℕ → ℕ → Cursor → Except ParseError (List KeyPos)
  | 0, _, _ => .ok []
  | n + 1, i, c =>
    match redisParseBulk c with
    | .error _ => .error (.keys info)
    | .ok (arg, c) =>
      match parseMoreKeys info n (i + 1) c with
      | .error e => .error e
      | .ok keys =>
        if redisArgkvx info.type ∧ i % 2 = 0 then .ok keys else .ok (arg.keyPos :: keys)

/-- From the first key on. -/
def parseKeysFrom (info : CmdDef) (narg : ℕ) (arg : Arg) (c : Cursor) :
    Except ParseError Parsed :=
  if info.type = .migrate ∧ arg.len = 0 ∧ info.firstkeymethod = .index ∧ info.firstkeypos = 3 then
    .error (.keys info)
  else if redisArgx info.type || redisArgkvx info.type then
    if redisArgkvx info.type ∧ narg % 2 = 0 then .error (.keys info)
    else
      match parseMoreKeys info (narg - 2) 2 c with
      | .error e => .error e
      | .ok keys => .ok ⟨info.type, narg, arg.keyPos :: keys⟩
  else .ok ⟨info.type, narg, [arg.keyPos]⟩

/-- A command with keys, of which the first argument has been read. -/
def parseKeys (buf : Bytes) (info : CmdDef) (narg : ℕ) (arg1 : Arg) (c : Cursor) :
    Except ParseError Parsed :=
  match info.firstkeymethod with
  | .none => .ok ⟨info.type, narg, []⟩
  | .unknown =>
    if info.type = .xread then
      parseAfterKeyword buf info narg "STREAMS" 1 ((toInt32 narg).toNat - 2) 1 c
    else if info.type = .xreadgroup then
      parseAfterKeyword buf info narg "STREAMS" 4 ((toInt32 narg).toNat - 2) 1 c
    else .error (.keys info)
  | .index =>
    match skipArgs info (info.firstkeypos - 1).toNat arg1 c with
    | .error e => .error e
    | .ok (arg, c) => parseKeysFrom info narg arg c
  | .keynum =>
    match skipArgs info (info.firstkeypos - 1).toNat arg1 c with
    | .error e => .error e
    | .ok (arg, c) =>
      if strncmp (ascii "0") (arg.bytes buf) = .eq then .ok ⟨info.type, narg, []⟩
      else
        match redisParseBulk c with
        | .error _ => .error (.keys info)
        | .ok (arg, c) => parseKeysFrom info narg arg c

/-- The arity check: a negative arity is a minimum. -/
def arityOk (info : CmdDef) (narg : ℕ) : Bool :=
  if 0 ≤ info.arity then toInt32 narg = info.arity else -info.arity ≤ toInt32 narg

/-- The command with its name, and its first argument if there is one. -/
def parseNamed (buf : Bytes) (narg : ℕ) (arg0 : Arg) (arg1 : Option Arg) (c : Cursor) :
    Except ParseError Parsed :=
  match redisLookupCmd (arg0.bytes buf) (arg1.map (Arg.bytes buf)) with
  | none => .error (.unknown (arg0.bytes buf) (arg1.map (Arg.bytes buf)))
  | some info =>
    if arityOk info narg then
      match info.firstkeymethod, arg1 with
      | .none, _ => .ok ⟨info.type, narg, []⟩
      | _, none => .error (.keys info)
      | _, some arg1 => parseKeys buf info narg arg1 c
    else .error (.keys info)

/-- The header: the number of arguments. -/
def parseHeader (buf : Bytes) : Option (ℕ × Cursor) :=
  match Cursor.expect ⟨0, buf⟩ 42 with
  | none => none
  | some c =>
    let n := parseUint 0 c.pos c.rest
    match n.2.crlf with
    | none => none
    | some c => if n.1 = 0 then none else some (n.1, c)

/-- `redis_parse_cmd`. -/
def redisParseCmd (buf : Bytes) : Except ParseError Parsed :=
  match parseHeader buf with
  | none => .error .malformed
  | some (narg, c) =>
    match redisParseBulk c with
    | .error none => .error .malformed
    | .error (some arg0) => .error (.unknown (arg0.bytes buf) none)
    | .ok (arg0, c) =>
      if narg > 1 then
        match redisParseBulk c with
        | .error arg1 => .error (.unknown (arg0.bytes buf) (arg1.map (Arg.bytes buf)))
        | .ok (arg1, c) => parseNamed buf narg arg0 (some arg1) c
      else parseNamed buf narg arg0 none c
